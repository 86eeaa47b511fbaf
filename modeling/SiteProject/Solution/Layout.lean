import SiteProject.Solution.Entry
import SiteProject.Text.Utf8

namespace SiteProject.Solution

/-- A solution's text is a sequence of pieces: entries, and the characters between them. -/
inductive Piece
  | other (c : Char)
  | entry (e : Entry)
  deriving DecidableEq, Repr

namespace Piece

def text : Piece → Text
  | other c => [c]
  | entry e => e.text

def entry? : Piece → Option Entry
  | other _ => none
  | entry e => some e

end Piece

/-- The pieces of a text that follows the character `before`. -/
def layoutAfter (before : Option Char) (s : Text) : List Piece :=
  match s with
  | [] => []
  | c :: s' =>
    if before.any Entry.isWord then .other c :: layoutAfter (some c) s'
    else
      match _hh : Header.read? (c :: s') with
      | none => .other c :: layoutAfter (some c) s'
      | some (header, r) =>
        match _hb : Entry.body? r with
        | none => (c :: s').map .other
        | some (body, r') => .entry ⟨header, body⟩ :: layoutAfter (some 't') r'
termination_by s.length
decreasing_by
  · simp
  · simp
  · have h₁ := Header.length_lt_of_read? _hh
    have h₂ := Entry.length_le_of_body? _hb
    omega

def layout (s : Text) : List Piece := layoutAfter none s

def entries (s : Text) : List Entry := (layout s).filterMap Piece.entry?

theorem flatMap_text_other (s : Text) : (s.map Piece.other).flatMap Piece.text = s := by
  induction s with
  | nil => rfl
  | cons c s ih => simp [Piece.text, ih]

theorem flatMap_text_layoutAfter (before : Option Char) (s : Text) :
    (layoutAfter before s).flatMap Piece.text = s := by
  fun_induction layoutAfter before s with
  | case1 => rfl
  | case2 before c s _ ih => simp [Piece.text, ih]
  | case3 before c s _ _ ih => simp [Piece.text, ih]
  | case4 before c s _ header r _ _ => exact flatMap_text_other (c :: s)
  | case5 before c s _ header r hh body r' hb ih =>
    have e₁ := Header.eq_text_append hh
    have e₂ := Entry.eq_append_of_body? hb
    simp only [List.flatMap_cons, Piece.text, Entry.text, ih]
    rw [e₁, e₂]
    simp

theorem flatMap_text_layout (s : Text) : (layout s).flatMap Piece.text = s :=
  flatMap_text_layoutAfter none s

/-- An entry with the byte offsets of its text and of its path. -/
structure Located where
  entry : Entry
  start : Nat
  stop : Nat
  pathStart : Nat
  pathStop : Nat
  deriving DecidableEq, Repr

/-- The entries of a sequence of pieces that begins at a byte offset. -/
def locateFrom (offset : Nat) : List Piece → List Located
  | [] => []
  | .other c :: ps => locateFrom (offset + c.utf8Size) ps
  | .entry e :: ps =>
    let stop := offset + Text.Utf8.size e.text
    let pathStart := offset + Text.Utf8.size e.beforePath
    { entry := e, start := offset, stop, pathStart,
      pathStop := pathStart + Text.Utf8.size e.header.path } :: locateFrom stop ps

def locate (s : Text) : List Located := locateFrom 0 (layout s)

end SiteProject.Solution
