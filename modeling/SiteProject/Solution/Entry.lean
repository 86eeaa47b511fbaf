import SiteProject.Solution.Header
import SiteProject.Solution.Kind

namespace SiteProject.Solution

/-- An entry of a solution: a header, and all that follows up to the first `EndProject` that is a word of its
own (`EndProjectSection` is not). -/
structure Entry where
  header : Header
  body : Text
  deriving DecidableEq, Repr

namespace Entry

def closing : Text := "EndProject".toList

def isWord (c : Char) : Bool := c.isAlphanum || c == '_'

/-- What follows the closing word, if the text starts with it and the word ends there. -/
def afterClosing? (s : Text) : Option Text :=
  (Text.after? closing s).filter fun r => !(r.head?.any isWord)

/-- The text before the first closing word, and the text after it. -/
def body? : Text → Option (Text × Text)
  | [] => none
  | c :: s =>
    match afterClosing? (c :: s) with
    | some r => some ([], r)
    | none => (body? s).map fun p => (c :: p.1, p.2)

def text (e : Entry) : Text := e.header.text ++ e.body ++ closing

/-- The text of the entry before its path, and after it. -/
def beforePath (e : Entry) : Text := e.header.lead

def afterPath (e : Entry) : Text := e.header.tail ++ e.body ++ closing

def kind? (e : Entry) : Option Kind := Kind.ofTypeGuid? e.header.typeGuid

def hasGuid (e : Entry) (guid : Text) : Bool := Text.sameLetters e.header.guid guid

theorem text_eq (e : Entry) : e.text = e.beforePath ++ e.header.path ++ e.afterPath := by
  simp [text, beforePath, afterPath, Header.text]

theorem eq_append_of_body? {s b r : Text} (h : body? s = some (b, r)) : s = b ++ closing ++ r := by
  induction s generalizing b with
  | nil => simp [body?] at h
  | cons c s ih =>
    rw [body?] at h
    split at h
    · next r' hr =>
      simp only [Option.some.injEq, Prod.mk.injEq] at h
      obtain ⟨rfl, rfl⟩ := h
      simpa using Text.after?_eq_some.1 (Option.eq_some_of_filter_eq_some hr)
    · simp only [Option.map_eq_some_iff, Prod.mk.injEq, Prod.exists] at h
      obtain ⟨b', r', hb, rfl, rfl⟩ := h
      simp [ih hb]

theorem length_le_of_body? {s b r : Text} (h : body? s = some (b, r)) : r.length ≤ s.length := by
  rw [eq_append_of_body? h]
  simp
  omega

end Entry
end SiteProject.Solution
