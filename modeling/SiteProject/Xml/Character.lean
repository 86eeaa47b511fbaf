import SiteProject.Xml.Name

namespace SiteProject.Xml

def escapeChar : Char → Text
  | '&' => "&amp;".toList
  | '<' => "&lt;".toList
  | '>' => "&gt;".toList
  | '"' => "&quot;".toList
  | '\'' => "&apos;".toList
  | c => [c]

/-- Writing replaces the five characters that mark something up by references. -/
def escape (s : Text) : Text := s.flatMap escapeChar

/-- An escaped path, with backslashes. -/
def escapePath (s : Text) : Text := Text.replace '/' '\\' (escape s)

def namedReferences : List (Text × Char) :=
  [("lt;".toList, '<'), ("gt;".toList, '>'), ("amp;".toList, '&'), ("quot;".toList, '"'),
   ("apos;".toList, '\'')]

def digitValue (c : Char) : Nat :=
  if c.isDigit then c.toNat - '0'.toNat else c.toLower.toNat - 'a'.toNat + 10

def numberOf (base : Nat) (digits : Text) : Nat :=
  digits.foldl (fun n c => n * base + digitValue c) 0

def isHexDigit (c : Char) : Bool :=
  c.isDigit || ('a' ≤ c && c ≤ 'f') || ('A' ≤ c && c ≤ 'F')

/-- The character of a number. A number of 32 bits that is no character gives the replacement
character; what may not stand in a document may not be referred to either. -/
def charOfNumber? (n : Nat) : Option Char :=
  if n ≥ UInt32.size then none
  else
    let c := if n.isValidChar then Char.ofNat n else '\uFFFD'
    if isAllowed c then some c else none

/-- A numeric reference whose digits start here. -/
def numeric? (base : Nat) (isDigit : Char → Bool) (s : Text) : Option (Char × Text) :=
  match s.takeWhile isDigit with
  | [] => none
  | digits =>
    match s.dropWhile isDigit with
    | ';' :: r => (charOfNumber? (numberOf base digits)).map (·, r)
    | _ => none

/-- A reference, after its ampersand. -/
def reference? (s : Text) : Option (Char × Text) :=
  match s with
  | '#' :: 'x' :: t => numeric? 16 isHexDigit t
  | '#' :: t => numeric? 10 Char.isDigit t
  | _ => namedReferences.findSome? fun p => (Text.after? p.1 s).map (p.2, ·)

theorem length_lt_of_numeric? {base : Nat} {p : Char → Bool} {s r : Text} {c : Char}
    (h : numeric? base p s = some (c, r)) : r.length < s.length := by
  unfold numeric? at h
  split at h
  · simp at h
  · split at h
    · next hd =>
      simp only [Option.map_eq_some_iff, Prod.mk.injEq] at h
      obtain ⟨_, _, _, rfl⟩ := h
      have := length_dropWhile_le p s
      rw [hd, List.length_cons] at this
      omega
    · simp at h

theorem length_lt_of_reference? {s r : Text} {c : Char} (h : reference? s = some (c, r)) :
    r.length < s.length := by
  unfold reference? at h
  split at h
  · next t =>
    have := length_lt_of_numeric? h
    simp only [List.length_cons]
    omega
  · next t _ =>
    have := length_lt_of_numeric? h
    simp only [List.length_cons]
    omega
  · obtain ⟨p, hp, hr⟩ := List.exists_of_findSome?_eq_some h
    simp only [Option.map_eq_some_iff, Prod.mk.injEq] at hr
    obtain ⟨r', hr', _, rfl⟩ := hr
    have hs := Text.after?_eq_some.1 hr'
    have : 0 < p.1.length := by
      simp only [namedReferences, List.mem_cons, List.not_mem_nil, or_false] at hp
      rcases hp with rfl | rfl | rfl | rfl | rfl <;> decide
    rw [hs, List.length_append]
    omega

/-- A character as it stands, or one that a reference stands for. -/
inductive Written
  | plain (c : Char)
  | referenced (c : Char)
  deriving DecidableEq, Repr

def written? (s : Text) : Option (List Written) :=
  match s with
  | [] => some []
  | c :: s' =>
    if c = '&' then
      match _h : reference? s' with
      | none => none
      | some (d, r) => (written? r).map (.referenced d :: ·)
    else (written? s').map (.plain c :: ·)
termination_by s.length
decreasing_by
  · have := length_lt_of_reference? _h
    simp only [List.length_cons]
    omega
  · simp

/-- Character data of an element: a line break that is not written as a reference becomes a line
feed. A carriage return is kept before a reference, and between a reference and the end. -/
def content (afterReference : Bool) : List Written → Text
  | [] => []
  | .referenced c :: ws => c :: content true ws
  | .plain '\r' :: .plain '\n' :: ws => '\n' :: content false ws
  | .plain '\r' :: .referenced c :: ws => '\r' :: c :: content true ws
  | [.plain '\r'] => if afterReference then ['\r'] else ['\n']
  | .plain '\r' :: ws => '\n' :: content false ws
  | .plain c :: ws => c :: content false ws

/-- The value of an attribute: a tab or line break that is not written as a reference becomes a
space. -/
def attributeValue : List Written → Text
  | [] => []
  | .referenced c :: ws => c :: attributeValue ws
  | .plain '\r' :: .plain '\n' :: ws => ' ' :: attributeValue ws
  | .plain c :: ws => (if c == '\r' || c == '\n' || c == '\t' then ' ' else c) :: attributeValue ws

/-- Text without references, with the line breaks of `content`. -/
def verbatim (s : Text) : Text := content false (s.map .plain)

end SiteProject.Xml
