import SiteProject.Text.Basic

namespace SiteProject.Xml

def isSpace (c : Char) : Bool := c == ' ' || c == '\t' || c == '\r' || c == '\n'

/-- What may stand in a document at all. -/
def isAllowed (c : Char) : Bool :=
  if c.toNat < 0x20 then c == '\t' || c == '\n' || c == '\r'
  else c.toNat != 0xFFFE && c.toNat != 0xFFFF

def within (ranges : List (Nat × Nat)) (c : Char) : Bool :=
  ranges.any fun r => r.1 ≤ c.toNat && c.toNat ≤ r.2

def nameStartRanges : List (Nat × Nat) :=
  [(0xC0, 0xD6), (0xD8, 0xF6), (0xF8, 0x2FF), (0x370, 0x37D), (0x37F, 0x1FFF), (0x200C, 0x200D),
   (0x2070, 0x218F), (0x2C00, 0x2FEF), (0x3001, 0xD7FF), (0xF900, 0xFDCF), (0xFDF0, 0xFFFD),
   (0x10000, 0xEFFFF)]

def nameOnlyRanges : List (Nat × Nat) := [(0xB7, 0xB7), (0x300, 0x36F), (0x203F, 0x2040)]

/-- The colon starts and continues names too, but separates the two parts of a `Name`. -/
def isNameStart (c : Char) : Bool := c.isAlpha || c == '_' || within nameStartRanges c

def isNameChar (c : Char) : Bool :=
  isNameStart c || c.isDigit || c == '-' || c == '.' || within nameOnlyRanges c

/-- A name with the part before its colon, if it has one. -/
structure Name where
  qualifier : Text
  localName : Text
  deriving DecidableEq, Repr

namespace Name

def startsAsName (w : Text) : Bool := w.head?.any isNameStart

/-- A colon with nothing before it is let pass. -/
def read? (s : Text) : Option (Name × Text) :=
  let w := s.takeWhile isNameChar
  match s.dropWhile isNameChar with
  | ':' :: r =>
    let v := r.takeWhile isNameChar
    if (w.isEmpty || startsAsName w) && startsAsName v then
      some (⟨w, v⟩, r.dropWhile isNameChar)
    else none
  | r => if startsAsName w then some (⟨[], w⟩, r) else none

/-- What follows a name in which colons are like any other character. -/
def skip? : Text → Option Text
  | c :: s =>
    if isNameStart c || c == ':' then some (s.dropWhile fun d => isNameChar d || d == ':')
    else none
  | [] => none

end Name

theorem length_dropWhile_le (p : Char → Bool) (s : Text) : (s.dropWhile p).length ≤ s.length :=
  (List.dropWhile_suffix p).length_le

theorem Name.length_lt_of_read? {s r : Text} {n : Name} (h : Name.read? s = some (n, r)) :
    r.length < s.length := by
  unfold Name.read? at h
  have hs := congrArg List.length (List.takeWhile_append_dropWhile (p := isNameChar) (l := s))
  rw [List.length_append] at hs
  split at h
  · next t ht =>
    dsimp only at h
    split at h
    · simp only [Option.some.injEq, Prod.mk.injEq] at h
      rw [ht, List.length_cons] at hs
      have := length_dropWhile_le isNameChar t
      rw [← h.2]
      omega
    · simp at h
  · dsimp only at h
    split at h
    · next hw =>
      simp only [Option.some.injEq, Prod.mk.injEq] at h
      rw [← h.2]
      have : s.takeWhile isNameChar ≠ [] := by
        intro e
        simp [startsAsName, e] at hw
      have := List.length_pos_iff.2 this
      omega
    · simp at h

theorem Name.length_lt_of_skip? {s r : Text} (h : Name.skip? s = some r) :
    r.length < s.length := by
  cases s with
  | nil => simp [Name.skip?] at h
  | cons c s =>
    simp only [Name.skip?] at h
    split at h
    · simp only [Option.some.injEq] at h
      have := length_dropWhile_le (fun d => isNameChar d || d == ':') s
      rw [← h, List.length_cons]
      omega
    · simp at h

end SiteProject.Xml
