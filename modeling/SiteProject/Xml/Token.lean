import SiteProject.Xml.Character

namespace SiteProject.Xml

structure Attribute where
  name : Name
  value : Text
  deriving DecidableEq, Repr

/-- The tokens of a document: tags, character data, and what readers pass over (comments and processing
instructions). -/
inductive Token
  | opening (name : Name) (attributes : List Attribute) (closed : Bool)
  | closing (name : Name)
  | chars (text : Text)
  | aside
  deriving DecidableEq, Repr

def skipSpace (s : Text) : Text := s.dropWhile isSpace

/-- `NAME = "VALUE"` with either quote, and the value as it is written. -/
def rawAttribute? (s : Text) : Option ((Name × Text) × Text) := do
  let (name, s) ← Name.read? s
  let s ← Text.after? ['='] (skipSpace s)
  match skipSpace s with
  | q :: s =>
    let value := s.takeWhile fun c => c != q && c != '<'
    if (q == '"' || q == '\x27') && value.all isAllowed then
      (Text.after? [q] (s.dropWhile fun c => c != q && c != '<')).map ((name, value), ·)
    else none
  | [] => none

theorem length_lt_of_rawAttribute? {s r : Text} {a : Name × Text}
    (h : rawAttribute? s = some (a, r)) : r.length < s.length := by
  simp only [rawAttribute?, bind, Option.bind_eq_some_iff, Prod.exists] at h
  obtain ⟨name, s₁, h₁, s₂, h₂, h⟩ := h
  have l₁ := Name.length_lt_of_read? h₁
  have l₂ := length_dropWhile_le isSpace s₁
  have e₂ := congrArg List.length (Text.after?_eq_some.1 h₂)
  have l₃ := length_dropWhile_le isSpace s₂
  simp only [skipSpace, List.length_append, List.length_singleton] at e₂
  split at h
  · next q t ht =>
    simp only [Option.ite_none_right_eq_some, Option.map_eq_some_iff, Prod.mk.injEq] at h
    obtain ⟨_, s₄, h₄, _, rfl⟩ := h
    have e₄ := congrArg List.length (Text.after?_eq_some.1 h₄)
    have l₄ := length_dropWhile_le (fun c => c != q && c != '<') t
    simp only [skipSpace] at ht
    rw [ht] at l₃
    simp only [List.length_append, List.length_cons] at e₄ l₃
    omega
  · simp at h

/-- The rest of an opening tag after its name: the attributes, each with space before it, and
whether the tag closes its element. -/
def attributes? (s : Text) : Option ((List Attribute × Bool) × Text) :=
  match skipSpace s with
  | '/' :: '>' :: r => some (([], true), r)
  | '>' :: r => some (([], false), r)
  | _ =>
    if s.head?.any isSpace then
      match _h : rawAttribute? (skipSpace s) with
      | none => none
      | some ((name, value), r) => do
        let ws ← written? value
        let ((as, closed), r) ← attributes? r
        return ((⟨name, attributeValue ws⟩ :: as, closed), r)
    else none
termination_by s.length
decreasing_by
  have l₁ := length_lt_of_rawAttribute? _h
  have l₂ := length_dropWhile_le isSpace s
  simp only [skipSpace] at l₁
  omega

theorem length_lt_of_attributes? {s r : Text} {a : List Attribute × Bool}
    (h : attributes? s = some (a, r)) : r.length < s.length := by
  fun_induction attributes? s generalizing a r with
  | case1 s r' hs =>
    simp only [Option.some.injEq, Prod.mk.injEq] at h
    have := length_dropWhile_le isSpace s
    rw [show s.dropWhile isSpace = skipSpace s from rfl, hs, h.2] at this
    simp only [List.length_cons] at this
    omega
  | case2 s r' hs =>
    simp only [Option.some.injEq, Prod.mk.injEq] at h
    have := length_dropWhile_le isSpace s
    rw [show s.dropWhile isSpace = skipSpace s from rfl, hs, h.2] at this
    simp only [List.length_cons] at this
    omega
  | case3 => simp at h
  | case4 s _ name value r' hr _ _ ih =>
    simp only [bind, pure, Option.bind_eq_some_iff, Prod.exists, Option.some.injEq,
      Prod.mk.injEq] at h
    obtain ⟨_, _, as, closed, r'', h', _, rfl⟩ := h
    have l₁ := ih h'
    have l₂ := length_lt_of_rawAttribute? hr
    have l₃ := length_dropWhile_le isSpace s
    simp only [skipSpace] at l₂
    omega
  | case5 => simp at h

namespace Token

/-- What follows a comment, after its opening. Two dashes may not stand inside, nor one at its end. -/
def comment? (s : Text) : Option Text := do
  let (inner, s) ← Text.cut? ['-', '-', '>'] s
  if inner.all isAllowed && !Text.contains ['-', '-'] inner && inner.getLast? != some '-' then some s
  else none

/-- What follows a processing instruction, after its question mark. One whose target is `xml` and
a space would be a declaration, which stands at the start of a document only. -/
def instruction? (s : Text) : Option Text :=
  if Text.startsWith ['x', 'm', 'l', ' '] s then none
  else do
    let s ← Name.skip? s
    let (inner, s) ← Text.cut? ['?', '>'] (skipSpace s)
    if inner.all isAllowed then some s else none

def cdata? (s : Text) : Option (Text × Text) := do
  let (inner, s) ← Text.cut? [']', ']', '>'] s
  if inner.all isAllowed then some (verbatim inner, s) else none

def closing? (s : Text) : Option (Name × Text) := do
  let (name, s) ← Name.read? s
  let s ← Text.after? ['>'] (skipSpace s)
  return (name, s)

def chars? (s : Text) : Option (Text × Text) :=
  let raw := s.takeWhile (· != '<')
  if raw.all isAllowed && !Text.contains [']', ']', '>'] raw then
    (written? raw).map fun ws => (content false ws, s.dropWhile (· != '<'))
  else none

def opening? (s : Text) : Option ((Name × List Attribute × Bool) × Text) := do
  let (name, s) ← Name.read? s
  let ((as, closed), s) ← attributes? s
  return ((name, as, closed), s)

def commentOpen : Text := "!--".toList

def cdataOpen : Text := "![CDATA[".toList

/-- What starts with a `<`. -/
def markup? (s : Text) : Option (Token × Text) :=
  match s with
  | '?' :: t => (instruction? t).map (aside, ·)
  | '/' :: t => (closing? t).map fun p => (closing p.1, p.2)
  | '!' :: _ =>
    match Text.after? commentOpen s, Text.after? cdataOpen s with
    | some t, _ => (comment? t).map (aside, ·)
    | none, some t => (cdata? t).map fun p => (chars p.1, p.2)
    | none, none => none
  | _ => (opening? s).map fun p => (opening p.1.1 p.1.2.1 p.1.2.2, p.2)

def read? (s : Text) : Option (Token × Text) :=
  match s with
  | [] => none
  | c :: t => if c = '<' then markup? t else (chars? s).map fun p => (chars p.1, p.2)

theorem length_le_of_cut? {w s a r : Text} (h : Text.cut? w s = some (a, r)) :
    r.length ≤ s.length := by
  rw [Text.append_of_cut? h]
  simp
  omega

theorem length_le_of_after? {w s r : Text} (h : Text.after? w s = some r) :
    r.length ≤ s.length := by
  rw [Text.after?_eq_some.1 h]
  simp

theorem length_le_of_markup? {s r : Text} {t : Token} (h : markup? s = some (t, r)) :
    r.length ≤ s.length := by
  unfold markup? at h
  split at h
  · next u =>
    simp only [instruction?, bind, Option.map_eq_some_iff, Option.bind_eq_some_iff,
      Option.ite_none_left_eq_some, Option.ite_none_right_eq_some, Prod.exists, Option.some.injEq,
      Prod.mk.injEq] at h
    obtain ⟨_, ⟨_, s₁, h₁, a, s₂, h₂, _, rfl⟩, _, rfl⟩ := h
    have l₁ := Name.length_lt_of_skip? h₁
    have l₂ := length_le_of_cut? h₂
    have l₃ := length_dropWhile_le isSpace s₁
    simp only [skipSpace] at l₂
    simp only [List.length_cons]
    omega
  · next u =>
    simp only [closing?, bind, pure, Option.map_eq_some_iff, Option.bind_eq_some_iff,
      Prod.exists, Option.some.injEq, Prod.mk.injEq] at h
    obtain ⟨_, _, ⟨n, s₁, h₁, s₂, h₂, rfl, rfl⟩, _, rfl⟩ := h
    have l₁ := Name.length_lt_of_read? h₁
    have l₂ := length_le_of_after? h₂
    have l₃ := length_dropWhile_le isSpace s₁
    simp only [skipSpace] at l₂
    simp only [List.length_cons]
    omega
  · split at h
    · next u _ hu =>
      simp only [comment?, bind, Option.map_eq_some_iff, Option.bind_eq_some_iff,
        Option.ite_none_right_eq_some, Prod.exists, Option.some.injEq, Prod.mk.injEq] at h
      obtain ⟨_, ⟨a, s₁, h₁, _, rfl⟩, _, rfl⟩ := h
      exact Nat.le_trans (length_le_of_cut? h₁) (length_le_of_after? hu)
    · next u _ hu =>
      simp only [cdata?, bind, Option.map_eq_some_iff, Option.bind_eq_some_iff,
        Option.ite_none_right_eq_some, Prod.exists, Option.some.injEq, Prod.mk.injEq] at h
      obtain ⟨_, _, ⟨a, s₁, h₁, _, _, rfl⟩, _, rfl⟩ := h
      exact Nat.le_trans (length_le_of_cut? h₁) (length_le_of_after? hu)
    · simp at h
  · simp only [opening?, bind, pure, Option.map_eq_some_iff, Option.bind_eq_some_iff,
      Prod.exists, Option.some.injEq, Prod.mk.injEq] at h
    obtain ⟨_, _, _, _, ⟨n, s₁, h₁, a, c, s₂, h₂, _, rfl⟩, _, rfl⟩ := h
    have l₁ := Name.length_lt_of_read? h₁
    have l₂ := length_lt_of_attributes? h₂
    omega

theorem length_lt_of_read? {s r : Text} {t : Token} (h : read? s = some (t, r)) :
    r.length < s.length := by
  unfold read? at h
  split at h
  · simp at h
  · next c u =>
    split at h
    · have := length_le_of_markup? h
      simp only [List.length_cons]
      omega
    · next hc =>
      simp only [chars?, Option.map_eq_some_iff, Option.ite_none_right_eq_some, Prod.exists,
        Prod.mk.injEq] at h
      obtain ⟨_, _, ⟨_, _, _, _, rfl⟩, _, rfl⟩ := h
      have := length_dropWhile_le (· != '<') u
      simp [hc]
      omega

end Token
end SiteProject.Xml
