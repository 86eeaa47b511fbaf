import SiteProject.Text.Blank

namespace SiteProject.Solution

/-- The first line of a solution entry:

    Project("{TYPE}") = "NAME", "PATH", "{GUID}"

It keeps the blanks and the optional quotes around the type, so that its text is exactly the text that was
read (`Header.eq_text_append`). -/
structure Header where
  openQuote : Bool
  typeGuid : Text
  closeQuote : Bool
  beforeEquals : Text
  afterEquals : Text
  name : Text
  beforePath : Text
  path : Text
  beforeGuid : Text
  guid : Text
  deriving DecidableEq, Repr

namespace Header

def keyword : Text := "Project(".toList

def isGuidChar (c : Char) : Bool :=
  c.isDigit || ('a' ≤ c && c ≤ 'f') || ('A' ≤ c && c ≤ 'F') || c == '-'

def isQuoted (c : Char) : Bool := c != '"'

def quoteIf : Bool → Text
  | true => ['"']
  | false => []

/-- What stands before the path. -/
def lead (h : Header) : Text :=
  keyword ++ quoteIf h.openQuote ++ ['\x7b'] ++ h.typeGuid ++ ['\x7d'] ++ quoteIf h.closeQuote ++
    [')'] ++ h.beforeEquals ++ ['='] ++ h.afterEquals ++ ['"'] ++ h.name ++ ['"', ','] ++
    h.beforePath ++ ['"']

/-- What stands after the path. -/
def tail (h : Header) : Text :=
  ['"', ','] ++ h.beforeGuid ++ ['"', '\x7b'] ++ h.guid ++ ['\x7d', '"']

def text (h : Header) : Text := h.lead ++ h.path ++ h.tail

def takeQuote : Text → Bool × Text
  | '"' :: s => (true, s)
  | s => (false, s)

/-- The longest start in the class, which must not be empty. -/
def takeSome? (p : Char → Bool) (s : Text) : Option (Text × Text) :=
  match s.takeWhile p with
  | [] => none
  | w => some (w, s.dropWhile p)

def read? (s : Text) : Option (Header × Text) := do
  let s ← Text.after? keyword s
  let openQuote := takeQuote s
  let s ← Text.after? ['\x7b'] openQuote.2
  let (typeGuid, s) ← takeSome? isGuidChar s
  let s ← Text.after? ['\x7d'] s
  let closeQuote := takeQuote s
  let s ← Text.after? [')'] closeQuote.2
  let beforeEquals := Text.spanBlank s
  let s ← Text.after? ['='] beforeEquals.2
  let afterEquals := Text.spanBlank s
  let s ← Text.after? ['"'] afterEquals.2
  let (name, s) ← takeSome? isQuoted s
  let s ← Text.after? ['"', ','] s
  let beforePath := Text.spanBlank s
  let s ← Text.after? ['"'] beforePath.2
  let (path, s) ← takeSome? isQuoted s
  let s ← Text.after? ['"', ','] s
  let beforeGuid := Text.spanBlank s
  let s ← Text.after? ['"', '\x7b'] beforeGuid.2
  let (guid, s) ← takeSome? isGuidChar s
  let s ← Text.after? ['\x7d', '"'] s
  return (⟨openQuote.1, typeGuid, closeQuote.1, beforeEquals.1, afterEquals.1, name, beforePath.1,
    path, beforeGuid.1, guid⟩, s)

theorem quoteIf_takeQuote (s : Text) : quoteIf (takeQuote s).1 ++ (takeQuote s).2 = s := by
  unfold takeQuote
  split <;> rfl

theorem eq_append_of_takeSome? {p : Char → Bool} {s w r : Text} (h : takeSome? p s = some (w, r)) :
    s = w ++ r := by
  unfold takeSome? at h
  split at h
  · simp at h
  · simp only [Option.some.injEq, Prod.mk.injEq] at h
    rw [← h.1, ← h.2, List.takeWhile_append_dropWhile]

theorem spanBlank_append (s : Text) : (Text.spanBlank s).1 ++ (Text.spanBlank s).2 = s :=
  List.takeWhile_append_dropWhile

/-- A header that was read is all of the text before the rest. -/
theorem eq_text_append {s r : Text} {h : Header} (hr : read? s = some (h, r)) : s = h.text ++ r := by
  unfold read? at hr
  obtain ⟨s₁, h₁, hr⟩ := Option.bind_eq_some_iff.1 hr
  obtain ⟨s₂, h₂, hr⟩ := Option.bind_eq_some_iff.1 hr
  obtain ⟨⟨typeGuid, s₃⟩, h₃, hr⟩ := Option.bind_eq_some_iff.1 hr
  obtain ⟨s₄, h₄, hr⟩ := Option.bind_eq_some_iff.1 hr
  obtain ⟨s₅, h₅, hr⟩ := Option.bind_eq_some_iff.1 hr
  obtain ⟨s₆, h₆, hr⟩ := Option.bind_eq_some_iff.1 hr
  obtain ⟨s₇, h₇, hr⟩ := Option.bind_eq_some_iff.1 hr
  obtain ⟨⟨name, s₈⟩, h₈, hr⟩ := Option.bind_eq_some_iff.1 hr
  obtain ⟨s₉, h₉, hr⟩ := Option.bind_eq_some_iff.1 hr
  obtain ⟨s₁₀, h₁₀, hr⟩ := Option.bind_eq_some_iff.1 hr
  obtain ⟨⟨path, s₁₁⟩, h₁₁, hr⟩ := Option.bind_eq_some_iff.1 hr
  obtain ⟨s₁₂, h₁₂, hr⟩ := Option.bind_eq_some_iff.1 hr
  obtain ⟨s₁₃, h₁₃, hr⟩ := Option.bind_eq_some_iff.1 hr
  obtain ⟨⟨guid, s₁₄⟩, h₁₄, hr⟩ := Option.bind_eq_some_iff.1 hr
  obtain ⟨s₁₅, h₁₅, hr⟩ := Option.bind_eq_some_iff.1 hr
  obtain ⟨rfl, rfl⟩ := Prod.mk.inj (Option.some.inj hr)
  rw [Text.after?_eq_some] at h₁ h₂ h₄ h₅ h₆ h₇ h₉ h₁₀ h₁₂ h₁₃ h₁₅
  subst h₁ h₄ h₉ h₁₂ h₁₅
  have e₂ := quoteIf_takeQuote s₁
  have e₅ := quoteIf_takeQuote s₄
  have e₆ := spanBlank_append s₅
  have e₇ := spanBlank_append s₆
  have e₁₀ := spanBlank_append s₉
  have e₁₃ := spanBlank_append s₁₂
  rw [h₂, eq_append_of_takeSome? h₃] at e₂
  rw [h₅] at e₅
  rw [h₆] at e₆
  rw [h₇, eq_append_of_takeSome? h₈] at e₇
  rw [h₁₀, eq_append_of_takeSome? h₁₁] at e₁₀
  rw [h₁₃, eq_append_of_takeSome? h₁₄] at e₁₃
  simp only [text, lead, tail, List.append_assoc] at *
  rw [e₁₃, e₁₀, e₇, e₆, e₅, e₂]

theorem length_lt_of_read? {s r : Text} {h : Header} (hr : read? s = some (h, r)) :
    r.length < s.length := by
  rw [eq_text_append hr]
  simp [text, lead, tail]
  omega

end Header
end SiteProject.Solution
