import SiteProject.Path.Declared

namespace SiteProject.Reference

/-- The pairs are in the order of the names. -/
structure Hints where
  pairs : List (Text × Text) := []
  deriving DecidableEq, Repr

namespace Hints

def insertInto (dll hint : Text) : List (Text × Text) → List (Text × Text)
  | [] => [(dll, hint)]
  | p :: ps =>
    if p.1 = dll then (dll, hint) :: ps
    else if Text.le dll p.1 then (dll, hint) :: p :: ps
    else p :: insertInto dll hint ps

def insert (h : Hints) (dll hint : Text) : Hints := ⟨insertInto dll hint h.pairs⟩

def get? (h : Hints) (dll : Text) : Option Text :=
  (h.pairs.find? fun p => p.1 == dll).map Prod.snd

def size (h : Hints) : Nat := h.pairs.length

@[simp]
theorem get?_empty (dll : Text) : get? {} dll = none := rfl

theorem find?_insertInto (dll hint other : Text) (ps : List (Text × Text)) :
    ((insertInto dll hint ps).find? fun p => p.1 == other).map Prod.snd =
      if dll = other then some hint else (ps.find? fun p => p.1 == other).map Prod.snd := by
  induction ps with
  | nil => by_cases h : dll = other <;> simp [insertInto, h]
  | cons p ps ih =>
    rw [insertInto]
    split
    · next hp =>
      subst hp
      by_cases h : p.1 = other <;> simp [h]
    · next hp =>
      split
      · by_cases h : dll = other <;> simp [h]
      · by_cases ho : p.1 = other
        · have : dll ≠ other := fun e => hp (ho.trans e.symm)
          simp [ho, this]
        · have : (p.1 == other) = false := by simpa using ho
          simp only [List.find?_cons, this, ih]

/-- A name has the hint that was set for it last. -/
theorem get?_insert (h : Hints) (dll hint other : Text) :
    (h.insert dll hint).get? other = if dll = other then some hint else h.get? other :=
  find?_insertInto dll hint other h.pairs

end Hints

/-- Where a binary is looked for that has no other place: the `Bin` folder of the site. -/
def binHint (siteFolder dll : Text) : Text := Declared.join siteFolder ["Bin".toList, dll]

end SiteProject.Reference
