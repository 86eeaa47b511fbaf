import SiteProject.Text.Utf8

namespace SiteProject.Settings

variable {α : Type} [DecidableEq α]

/-- The cells of a row behind the one on the left, which has just been filled in, from those of the row
above. -/
def nextCells (a : α) (left : Nat) : List α → List Nat → List Nat
  | b :: bs, diagonal :: above :: row =>
    let cell := min (min (above + 1) (left + 1)) (diagonal + if a = b then 0 else 1)
    cell :: nextCells a cell bs (above :: row)
  | _, _ => []

/-- The last row of the table: the distances of the one list to each beginning of the other. -/
def lastRow (as bs : List α) : List Nat :=
  as.zipIdx.foldl (fun row p => (p.2 + 1) :: nextCells p.1 (p.2 + 1) bs row) (List.range (bs.length + 1))

/-- The edit distance of two lists. -/
def distance (as bs : List α) : Nat := if as = bs then 0 else (lastRow as bs).getD bs.length 0

/-- The words that a key may be meant for. -/
def knownWords : List String := ["convert", "out_dir", "mode", "output", "color"]

/-- The word is taken, with its distance, if it is nearer to the key than the best one so far. -/
def nearer (key : Text) (best : Option (Text × Nat)) (w : Text) : Option (Text × Nat) :=
  let d := distance (Text.Utf8.encode key) (Text.Utf8.encode w)
  match best with
  | none => some (w, d)
  | some (v, e) => if d < e then some (w, d) else some (v, e)

def nearest? (key : Text) (ws : List Text) : Option (Text × Nat) := ws.foldl (nearer key) none

/-- The known word that is nearest to the key by edit distance on bytes, if it is at most two edits away. -/
def suggest? (key : Text) : Option Text :=
  ((nearest? key (knownWords.map String.toList)).filter fun p => p.2 ≤ 2).map Prod.fst

end SiteProject.Settings
