import SiteProject.Proofs.Text.Cut
import SiteProject.Solution.Header

namespace SiteProject.Solution.Header

/-- The parts of a header are texts of their classes, and only blanks may be missing. -/
structure WellFormed (h : Header) : Prop where
  typeGuid_ne : h.typeGuid ≠ []
  typeGuid : ∀ c ∈ h.typeGuid, isGuidChar c = true
  beforeEquals : ∀ c ∈ h.beforeEquals, Text.isBlank c = true
  afterEquals : ∀ c ∈ h.afterEquals, Text.isBlank c = true
  name_ne : h.name ≠ []
  name : '"' ∉ h.name
  beforePath : ∀ c ∈ h.beforePath, Text.isBlank c = true
  path_ne : h.path ≠ []
  path : '"' ∉ h.path
  beforeGuid : ∀ c ∈ h.beforeGuid, Text.isBlank c = true
  guid_ne : h.guid ≠ []
  guid : ∀ c ∈ h.guid, isGuidChar c = true

theorem takeSome?_append_cons {p : Char → Bool} {w r : Text} {d : Char} (hne : w ≠ [])
    (hw : ∀ c ∈ w, p c = true) (hd : p d = false) :
    takeSome? p (w ++ d :: r) = some (w, d :: r) := by
  have ht : (w ++ d :: r).takeWhile p = w := Text.takeWhile_append_of_head? hw hd
  have hr : (w ++ d :: r).dropWhile p = d :: r := Text.dropWhile_append_of_head? hw hd
  cases w with
  | nil => exact absurd rfl hne
  | cons c w => simp only [takeSome?, ht, hr]

theorem spanBlank_append_cons {w r : Text} {d : Char} (hw : ∀ c ∈ w, Text.isBlank c = true)
    (hd : Text.isBlank d = false) : Text.spanBlank (w ++ d :: r) = (w, d :: r) := by
  have hr : (d :: r).head?.any Text.isBlank = false := hd
  rw [Text.spanBlank, Text.takeWhile_append_of_head? hw hr, Text.dropWhile_append_of_head? hw hr]

theorem takeQuote_quoteIf {b : Bool} {c : Char} {s : Text} (hc : c ≠ '"') :
    takeQuote (quoteIf b ++ c :: s) = (b, c :: s) := by
  cases b with
  | true => rfl
  | false =>
    simp only [quoteIf, List.nil_append, takeQuote]
    split
    · next h => simp_all
    · rfl

theorem read?_text_append {h : Header} (hw : h.WellFormed) (r : Text) :
    read? (h.text ++ r) = some (h, r) := by
  have hone (c : Char) (s : Text) : Text.after? [c] (c :: s) = some s := Text.after?_append [c] s
  have htwo (c d : Char) (s : Text) : Text.after? [c, d] (c :: d :: s) = some s :=
    Text.after?_append [c, d] s
  have hq {t : Text} (ht : '"' ∉ t) : ∀ c ∈ t, isQuoted c = true := by
    intro c hc
    have hne : c ≠ '"' := fun e => ht (e ▸ hc)
    simpa [isQuoted] using hne
  simp only [text, lead, tail, List.append_assoc, List.cons_append, List.nil_append]
  rw [read?, Text.after?_append]
  refine Option.bind_eq_some_iff.2 ⟨_, rfl, ?_⟩
  rw [takeQuote_quoteIf (by decide)]
  refine Option.bind_eq_some_iff.2 ⟨_, hone _ _, ?_⟩
  refine Option.bind_eq_some_iff.2
    ⟨_, takeSome?_append_cons hw.typeGuid_ne hw.typeGuid (by decide), ?_⟩
  refine Option.bind_eq_some_iff.2 ⟨_, hone _ _, ?_⟩
  dsimp only
  rw [takeQuote_quoteIf (by decide)]
  refine Option.bind_eq_some_iff.2 ⟨_, hone _ _, ?_⟩
  rw [spanBlank_append_cons hw.beforeEquals (by decide)]
  refine Option.bind_eq_some_iff.2 ⟨_, hone _ _, ?_⟩
  rw [spanBlank_append_cons hw.afterEquals (by decide)]
  refine Option.bind_eq_some_iff.2 ⟨_, hone _ _, ?_⟩
  refine Option.bind_eq_some_iff.2 ⟨_, takeSome?_append_cons hw.name_ne (hq hw.name) (by decide), ?_⟩
  refine Option.bind_eq_some_iff.2 ⟨_, htwo _ _ _, ?_⟩
  rw [spanBlank_append_cons hw.beforePath (by decide)]
  refine Option.bind_eq_some_iff.2 ⟨_, hone _ _, ?_⟩
  refine Option.bind_eq_some_iff.2 ⟨_, takeSome?_append_cons hw.path_ne (hq hw.path) (by decide), ?_⟩
  refine Option.bind_eq_some_iff.2 ⟨_, htwo _ _ _, ?_⟩
  rw [spanBlank_append_cons hw.beforeGuid (by decide)]
  refine Option.bind_eq_some_iff.2 ⟨_, htwo _ _ _, ?_⟩
  refine Option.bind_eq_some_iff.2 ⟨_, takeSome?_append_cons hw.guid_ne hw.guid (by decide), ?_⟩
  refine Option.bind_eq_some_iff.2 ⟨_, htwo _ _ _, ?_⟩
  rfl

theorem class_of_takeSome? {p : Char → Bool} {s w r : Text} (h : takeSome? p s = some (w, r)) :
    w ≠ [] ∧ ∀ c ∈ w, p c = true := by
  unfold takeSome? at h
  split at h
  · simp at h
  · next hne =>
    obtain ⟨rfl, -⟩ := Prod.mk.inj (Option.some.inj h)
    exact ⟨hne, fun c hc => List.all_eq_true.1 List.all_takeWhile c hc⟩

theorem class_of_spanBlank (s : Text) : ∀ c ∈ (Text.spanBlank s).1, Text.isBlank c = true :=
  fun c hc => List.all_eq_true.1 List.all_takeWhile c hc

theorem wellFormed_of_read? {s r : Text} {h : Header} (hr : read? s = some (h, r)) :
    h.WellFormed := by
  unfold read? at hr
  obtain ⟨s₁, -, hr⟩ := Option.bind_eq_some_iff.1 hr
  obtain ⟨s₂, -, hr⟩ := Option.bind_eq_some_iff.1 hr
  obtain ⟨⟨typeGuid, s₃⟩, h₃, hr⟩ := Option.bind_eq_some_iff.1 hr
  obtain ⟨s₄, -, hr⟩ := Option.bind_eq_some_iff.1 hr
  obtain ⟨s₅, -, hr⟩ := Option.bind_eq_some_iff.1 hr
  obtain ⟨s₆, -, hr⟩ := Option.bind_eq_some_iff.1 hr
  obtain ⟨s₇, -, hr⟩ := Option.bind_eq_some_iff.1 hr
  obtain ⟨⟨name, s₈⟩, h₈, hr⟩ := Option.bind_eq_some_iff.1 hr
  obtain ⟨s₉, -, hr⟩ := Option.bind_eq_some_iff.1 hr
  obtain ⟨s₁₀, -, hr⟩ := Option.bind_eq_some_iff.1 hr
  obtain ⟨⟨path, s₁₁⟩, h₁₁, hr⟩ := Option.bind_eq_some_iff.1 hr
  obtain ⟨s₁₂, -, hr⟩ := Option.bind_eq_some_iff.1 hr
  obtain ⟨s₁₃, -, hr⟩ := Option.bind_eq_some_iff.1 hr
  obtain ⟨⟨guid, s₁₄⟩, h₁₄, hr⟩ := Option.bind_eq_some_iff.1 hr
  obtain ⟨s₁₅, -, hr⟩ := Option.bind_eq_some_iff.1 hr
  obtain ⟨rfl, -⟩ := Prod.mk.inj (Option.some.inj hr)
  have unquoted {t : Text} (ht : ∀ c ∈ t, isQuoted c = true) : '"' ∉ t := fun hc =>
    absurd (ht _ hc) (by decide)
  have ht := class_of_takeSome? h₃
  have hn := class_of_takeSome? h₈
  have hp := class_of_takeSome? h₁₁
  have hg := class_of_takeSome? h₁₄
  exact {
    typeGuid_ne := ht.1
    typeGuid := ht.2
    beforeEquals := class_of_spanBlank s₅
    afterEquals := class_of_spanBlank s₆
    name_ne := hn.1
    name := unquoted hn.2
    beforePath := class_of_spanBlank s₉
    path_ne := hp.1
    path := unquoted hp.2
    beforeGuid := class_of_spanBlank s₁₂
    guid_ne := hg.1
    guid := hg.2 }

/-- Reading accepts exactly the texts of well-formed headers, whatever follows them. -/
theorem read?_eq_some_iff {s r : Text} {h : Header} :
    read? s = some (h, r) ↔ h.WellFormed ∧ s = h.text ++ r := by
  constructor
  · intro hr
    exact ⟨wellFormed_of_read? hr, eq_text_append hr⟩
  · rintro ⟨hw, rfl⟩
    exact read?_text_append hw r

theorem keyword_eq : keyword = 'P' :: "roject(".toList := by decide

theorem head?_text_append (h : Header) (r : Text) : (h.text ++ r).head? = some 'P' := by
  simp only [text, lead, keyword_eq, List.cons_append, List.head?_cons]

/-- Classes of which a character is no member have no text with it. -/
theorem notMem_of_class {p : Char → Bool} {c : Char} {w : Text} (hw : ∀ d ∈ w, p d = true)
    (hc : p c = false) : c ∉ w := by
  intro hm
  rw [hw c hm] at hc
  exact absurd hc (by decide)

/-- A comma right after the first quotation mark is the first character of the name. -/
theorem name_of_comma {h : Header} (hw : h.WellFormed) {n z r : Text} (hn : '"' ∉ n)
    (he : h.text ++ r = n ++ '"' :: ',' :: z) :
    h.name ++ '"' :: ',' :: (h.beforePath ++ '"' :: (h.path ++ (h.tail ++ r))) = ',' :: z := by
  have hk : '"' ∉ keyword := by decide
  have ht : '"' ∉ h.typeGuid := notMem_of_class hw.typeGuid (by decide)
  have hb : '"' ∉ h.beforeEquals := notMem_of_class hw.beforeEquals (by decide)
  have ha : '"' ∉ h.afterEquals := notMem_of_class hw.afterEquals (by decide)
  let named : Text := h.beforeEquals ++ '=' :: (h.afterEquals ++ '"' :: (h.name ++ '"' :: ',' ::
    (h.beforePath ++ '"' :: (h.path ++ (h.tail ++ r)))))
  cases ho : h.openQuote with
  | true =>
    have hb := (Text.append_cons_inj (b := '\x7b' :: (h.typeGuid ++ '\x7d' ::
      (quoteIf h.closeQuote ++ ')' :: named))) hk hn (by simpa [text, lead, ho, quoteIf] using he)).2
    simp at hb
  | false =>
    cases hc : h.closeQuote with
    | true =>
      have hb := (Text.append_cons_inj (a := keyword ++ '\x7b' :: (h.typeGuid ++ ['\x7d']))
        (b := ')' :: named) (by simp [hk, ht]) hn
        (by simpa [text, lead, ho, hc, quoteIf] using he)).2
      simp at hb
    | false =>
      exact (Text.append_cons_inj (a := keyword ++ '\x7b' :: (h.typeGuid ++ '\x7d' :: ')' ::
        (h.beforeEquals ++ '=' :: h.afterEquals))) (by simp [hk, ht, hb, ha]) hn
        (by simpa [text, lead, ho, hc, quoteIf] using he)).2

/-- After its first character, a `P` in a header's text is a character of the name or of the path. -/
theorem quoted_of_text_eq {h : Header} (hw : h.WellFormed) {g u : Text} (hg : g ≠ [])
    (he : h.text = g ++ 'P' :: u) :
    ∃ n, '"' ∉ n ∧
      (u = n ++ '"' :: ',' :: (h.beforePath ++ '"' :: (h.path ++ h.tail)) ∨ u = n ++ h.tail) := by
  obtain ⟨c, g, rfl⟩ := List.exists_cons_of_ne_nil hg
  have hq (b : Bool) : 'P' ∉ quoteIf b := by cases b <;> decide
  have h₁ : 'P' ∉ "roject(".toList ++ quoteIf h.openQuote ++ ['\x7b'] ++ h.typeGuid ++ ['\x7d'] ++
      quoteIf h.closeQuote ++ [')'] ++ h.beforeEquals ++ ['='] ++ h.afterEquals ++ ['"'] := by
    have ht : 'P' ∉ h.typeGuid := notMem_of_class hw.typeGuid (by decide)
    have hb : 'P' ∉ h.beforeEquals := notMem_of_class hw.beforeEquals (by decide)
    have ha : 'P' ∉ h.afterEquals := notMem_of_class hw.afterEquals (by decide)
    simp [hq, ht, hb, ha]
  have h₂ : 'P' ∉ ['"', ','] ++ h.beforePath ++ ['"'] := by
    have hp : 'P' ∉ h.beforePath := notMem_of_class hw.beforePath (by decide)
    simp [hp]
  have h₃ : 'P' ∉ h.tail := by
    have hb : 'P' ∉ h.beforeGuid := notMem_of_class hw.beforeGuid (by decide)
    have hg : 'P' ∉ h.guid := notMem_of_class hw.guid (by decide)
    simp [tail, hb, hg]
  simp only [text, lead, keyword_eq, List.cons_append, List.cons.injEq] at he
  obtain ⟨-, he⟩ := he
  obtain ⟨g₁, -, he₁⟩ := Text.exists_append_of_notMem
    (r := h.name ++ (['"', ','] ++ h.beforePath ++ ['"'] ++ (h.path ++ h.tail))) h₁
    (by simpa using he.symm)
  rcases List.append_eq_append_iff.1 he₁ with ⟨a, rfl, he₂⟩ | ⟨a, hn, hu⟩
  · obtain ⟨g₂, -, he₃⟩ := Text.exists_append_of_notMem h₂ he₂.symm
    rcases List.append_eq_append_iff.1 he₃ with ⟨a, rfl, he₄⟩ | ⟨a, hn, hu⟩
    · exact absurd (by simp [he₄]) h₃
    · cases a with
      | nil =>
        rw [List.nil_append] at hu
        exact absurd (by simp [← hu]) h₃
      | cons c n =>
        obtain ⟨rfl, rfl⟩ := List.cons.inj hu
        exact ⟨n, fun hc => hw.path (by simp [hn, hc]), .inr rfl⟩
  · cases a with
    | nil =>
      have hh := congrArg List.head? hu
      simp at hh
    | cons c n =>
      obtain ⟨rfl, rfl⟩ := List.cons.inj hu
      exact ⟨n, fun hc => hw.name (by simp [hn, hc]), .inl (by simp)⟩

/-- A header that begins before another one ends before it. -/
theorem inside_of_overlap {g r r' : Text} {h h' : Header} (hw : h.WellFormed) (hw' : h'.WellFormed)
    (hg : g ≠ []) (he : g ++ h.text ++ r = h'.text ++ r') : ∃ t, g = h'.text ++ t := by
  have comma {w : Text} (hb : ∀ c ∈ w, Text.isBlank c = true) : '"' ∉ ',' :: w :=
    List.not_mem_cons_of_ne_of_not_mem (by decide) (notMem_of_class hb (by decide))
  rw [List.append_assoc] at he
  rcases List.append_eq_append_iff.1 he with ⟨a, ha, hr⟩ | ⟨b, hb, -⟩
  · cases a with
    | nil => exact ⟨[], by simpa using ha.symm⟩
    | cons p u =>
      exfalso
      have hp : p = 'P' := by
        have hh := head?_text_append h r
        rw [hr] at hh
        simpa using hh
      subst hp
      obtain ⟨n, hn, hu | hu⟩ := quoted_of_text_eq hw' hg ha
      · -- the keyword lies in the earlier header's name, so the later one's marks come in this order:
        -- the end of that name, the marks of that path, and the mark before a brace
        have hn' : '"' ∉ 'P' :: n := List.not_mem_cons_of_ne_of_not_mem (by decide) hn
        have e₁ := name_of_comma hw (n := 'P' :: n)
          (z := h'.beforePath ++ '"' :: (h'.path ++ h'.tail) ++ r') hn'
          (by rw [hr, hu]; simp only [List.cons_append, List.append_assoc])
        have e₂ := (Text.append_cons_inj (c := ',' :: h'.beforePath) hw.name (comma hw'.beforePath)
          (by simpa using e₁)).2
        have e₃ := (Text.append_cons_inj (a := ',' :: h.beforePath) (c := h'.path)
          (comma hw.beforePath) hw'.path (by simpa [tail] using e₂)).2
        have e₄ := (Text.append_cons_inj (c := ',' :: h'.beforeGuid) hw.path (comma hw'.beforeGuid)
          (by simpa [tail] using e₃)).2
        simp at e₄
      · have hn' : '"' ∉ 'P' :: n := List.not_mem_cons_of_ne_of_not_mem (by decide) hn
        have e₁ := name_of_comma hw (n := 'P' :: n)
          (z := h'.beforeGuid ++ '"' :: '\x7b' :: (h'.guid ++ '\x7d' :: '"' :: r')) hn'
          (by rw [hr, hu]; simp [tail])
        have e₂ := (Text.append_cons_inj (c := ',' :: h'.beforeGuid) hw.name (comma hw'.beforeGuid)
          (by simpa using e₁)).2
        simp at e₂
  · exact ⟨b, hb⟩

end SiteProject.Solution.Header
