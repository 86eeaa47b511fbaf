import SiteProject.Proofs.Xml.Character

namespace SiteProject.Xml

/-- The character that a reference stands for, after its ampersand, and the text behind the reference. -/
def named? (s : Text) : Option (Char × Text) :=
  namedReferences.findSome? fun p => (Text.after? p.1 s).map (p.2, ·)

theorem named?_append {p : Text × Char} (hp : p ∈ namedReferences) (s : Text) :
    named? (p.1 ++ s) = some (p.2, s) := by
  simp only [namedReferences, List.mem_cons, List.not_mem_nil, or_false] at hp
  rcases hp with rfl | rfl | rfl | rfl | rfl <;> rfl

theorem exists_of_named? {s r : Text} {c : Char} (h : named? s = some (c, r)) :
    ∃ p ∈ namedReferences, p.2 = c ∧ s = p.1 ++ r := by
  obtain ⟨p, hp, hr⟩ := List.exists_of_findSome?_eq_some h
  obtain ⟨r', hr', he⟩ := Option.map_eq_some_iff.1 hr
  obtain ⟨rfl, rfl⟩ := Prod.mk.inj he
  exact ⟨p, hp, rfl, Text.after?_eq_some.1 hr'⟩

theorem length_le_of_named? {s r : Text} {c : Char} (h : named? s = some (c, r)) :
    r.length ≤ s.length := by
  obtain ⟨p, -, -, rfl⟩ := exists_of_named? h
  rw [List.length_append]
  omega

/-- The references are decoded from left to right; an ampersand that begins none is kept. -/
def decodeNamed (s : Text) : Text :=
  match s with
  | [] => []
  | c :: s' =>
    if c = '&' then
      match _h : named? s' with
      | some (d, r) => d :: decodeNamed r
      | none => c :: decodeNamed s'
    else c :: decodeNamed s'
termination_by s.length
decreasing_by
  · have := length_le_of_named? _h
    simp only [List.length_cons]
    omega
  · simp
  · simp

theorem decodeNamed_cons_of_ne {c : Char} (hc : c ≠ '&') (s : Text) :
    decodeNamed (c :: s) = c :: decodeNamed s := by
  rw [decodeNamed, if_neg hc]

theorem decodeNamed_reference {p : Text × Char} (hp : p ∈ namedReferences) (s : Text) :
    decodeNamed ('&' :: (p.1 ++ s)) = p.2 :: decodeNamed s := by
  have hn := named?_append hp s
  rw [decodeNamed, if_pos rfl]
  split
  · next d r hr =>
    obtain ⟨rfl, rfl⟩ := Prod.mk.inj (Option.some.inj (hr.symm.trans hn))
    rfl
  · next hr => simp [hn] at hr

theorem ampersand_mem : ("amp;".toList, '&') ∈ namedReferences := by decide

theorem decodeNamed_escapeChar (c : Char) (s : Text) :
    decodeNamed (escapeChar c ++ s) = c :: decodeNamed s := by
  rcases escapeChar_cases c with ⟨h, hne⟩ | ⟨p, hp, rfl, h⟩
  · rw [h]
    exact decodeNamed_cons_of_ne (hne _ ampersand_mem) s
  · rw [h]
    exact decodeNamed_reference hp s

theorem escape_cons (c : Char) (s : Text) : escape (c :: s) = escapeChar c ++ escape s :=
  List.flatMap_cons

theorem escape_append (s t : Text) : escape (s ++ t) = escape s ++ escape t :=
  List.flatMap_append

theorem decodeNamed_escape (s : Text) : decodeNamed (escape s) = s := by
  induction s with
  | nil => rw [escape, List.flatMap_nil, decodeNamed]
  | cons c s ih => rw [escape_cons, decodeNamed_escapeChar, ih]

/-- An ampersand of an escaped character begins its reference. -/
theorem eq_of_escapeChar {c : Char} {a r : Text} (h : escapeChar c = a ++ '&' :: r) :
    ∃ p ∈ namedReferences, r = p.1 := by
  rcases escapeChar_cases c with ⟨hc, hne⟩ | ⟨p, hp, -, hc⟩
  · have hm : '&' ∈ [c] := by
      rw [← hc, h]
      simp
    exact absurd (List.mem_singleton.1 hm).symm (hne _ ampersand_mem)
  · have hn : ∀ p ∈ namedReferences, '&' ∉ p.1 := by decide
    have hs : [] ++ '&' :: p.1 = a ++ '&' :: r := hc.symm.trans h
    cases a with
    | nil => exact ⟨p, hp, (List.cons.inj hs).2.symm⟩
    | cons d a =>
      have hm : '&' ∈ p.1 := by
        rw [(List.cons.inj hs).2]
        simp
      exact absurd hm (hn p hp)

theorem reference_of_escape {s a r : Text} (h : escape s = a ++ '&' :: r) :
    ∃ p ∈ namedReferences, p.1 <+: r := by
  induction s generalizing a with
  | nil => simp [escape] at h
  | cons c s ih =>
    rw [escape_cons, List.append_eq_append_iff] at h
    rcases h with ⟨b, -, hb⟩ | ⟨b, hb, hr⟩
    · exact ih hb
    · cases b with
      | nil => exact ih (a := []) hr.symm
      | cons d b =>
        obtain ⟨rfl, rfl⟩ := List.cons.inj hr
        obtain ⟨p, hp, rfl⟩ := eq_of_escapeChar hb
        exact ⟨p, hp, List.prefix_append p.1 (escape s)⟩

/-- A text without markup, in which every ampersand begins a reference, is decoded to another text. -/
structure Encodes (w s : Text) : Prop where
  no_markup : ∀ d ∈ ['<', '>', '"', '\''], d ∉ w
  references : ∀ a r, w = a ++ '&' :: r → ∃ p ∈ namedReferences, p.1 <+: r
  decoded : decodeNamed w = s

theorem encodes_of_escape (s : Text) : Encodes (escape s) s where
  no_markup _ hd := notMem_escape hd s
  references _ _ h := reference_of_escape h
  decoded := decodeNamed_escape s

/-- Escaped text encodes the text it was made from, whatever that looks like, and an escaped path encodes
the path with its slashes turned. Texts can be escaped part by part. -/
theorem encodes_escape (s : Text) :
    Encodes (escape s) s ∧ (∀ t, escape (s ++ t) = escape s ++ escape t) ∧
      Encodes (escapePath s) (Text.replace '/' '\\' s) := by
  refine ⟨encodes_of_escape s, escape_append s, ?_⟩
  rw [escapePath_eq]
  exact encodes_of_escape (Text.replace '/' '\\' s)

/-- What looks like a reference before is one character after another. -/
example : escape "&lt;/".toList = "&amp;lt;/".toList ∧
    escapePath "&lt;/".toList = "&amp;lt;\\".toList := by decide

end SiteProject.Xml
