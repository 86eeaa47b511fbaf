import SiteProject.Xml.Tree

namespace SiteProject.Xml

theorem isAllowed_of_isSpace {c : Char} (h : isSpace c = true) : isAllowed c = true := by
  simp only [isSpace, Bool.or_eq_true, beq_iff_eq] at h
  rcases h with ((rfl | rfl) | rfl) | rfl <;> decide

/-- A character in ranges that are all between the space and the two that are not allowed, or after
these. -/
theorem isAllowed_of_within (rs : List (Nat × Nat))
    (hrs : ∀ r ∈ rs, 0x20 ≤ r.1 ∧ (r.2 < 0xFFFE ∨ 0xFFFF < r.1)) {c : Char}
    (h : within rs c = true) : isAllowed c = true := by
  obtain ⟨r, hr, hc⟩ := List.any_eq_true.1 h
  rw [Bool.and_eq_true, decide_eq_true_eq, decide_eq_true_eq] at hc
  obtain ⟨hlow, hhigh⟩ := hrs r hr
  have hspace : ¬ c.toNat < 0x20 := by omega
  have hfffe : c.toNat ≠ 0xFFFE := by omega
  have hffff : c.toNat ≠ 0xFFFF := by omega
  simp [isAllowed, hspace, hfffe, hffff]

theorem isAllowed_of_between {a b c : Char} (hlow : a.val ≤ c.val) (hhigh : c.val ≤ b.val)
    (h : 0x20 ≤ a.toNat ∧ b.toNat < 0xFFFE) : isAllowed c = true := by
  apply isAllowed_of_within [(a.toNat, b.toNat)]
  · intro r hr
    rw [List.mem_singleton.1 hr]
    exact ⟨h.1, .inl h.2⟩
  · simp only [within, List.any_cons, List.any_nil, Bool.or_false, Bool.and_eq_true, decide_eq_true_eq]
    exact ⟨UInt32.le_iff_toNat_le.1 hlow, UInt32.le_iff_toNat_le.1 hhigh⟩

theorem isAllowed_of_isUpper {c : Char} (h : c.isUpper = true) : isAllowed c = true := by
  obtain ⟨hlow, hhigh⟩ : 'A'.val ≤ c.val ∧ c.val ≤ 'Z'.val := of_decide_eq_true h
  exact isAllowed_of_between hlow hhigh (by decide)

theorem isAllowed_of_isLower {c : Char} (h : c.isLower = true) : isAllowed c = true := by
  obtain ⟨hlow, hhigh⟩ := Bool.and_eq_true_iff.1 h
  exact isAllowed_of_between (of_decide_eq_true hlow) (of_decide_eq_true hhigh) (by decide)

theorem isAllowed_of_isDigit {c : Char} (h : c.isDigit = true) : isAllowed c = true := by
  obtain ⟨hlow, hhigh⟩ := Bool.and_eq_true_iff.1 h
  exact isAllowed_of_between (of_decide_eq_true hlow) (of_decide_eq_true hhigh) (by decide)

theorem isAllowed_of_isNameStart {c : Char} (h : isNameStart c = true) : isAllowed c = true := by
  simp only [isNameStart, Bool.or_eq_true, beq_iff_eq] at h
  rcases h with (hletter | rfl) | hrange
  · rcases Bool.or_eq_true_iff.1 hletter with hupper | hlower
    · exact isAllowed_of_isUpper hupper
    · exact isAllowed_of_isLower hlower
  · decide
  · exact isAllowed_of_within _ (by decide) hrange

theorem isAllowed_of_isNameChar {c : Char} (h : isNameChar c = true) : isAllowed c = true := by
  simp only [isNameChar, Bool.or_eq_true, beq_iff_eq] at h
  rcases h with (((hstart | hdigit) | rfl) | rfl) | hrange
  · exact isAllowed_of_isNameStart hstart
  · exact isAllowed_of_isDigit hdigit
  · decide
  · decide
  · exact isAllowed_of_within _ (by decide) hrange

/-- From the first text to the second, only allowed characters are passed over. -/
def Passes (s r : Text) : Prop := ∃ p, s = p ++ r ∧ p.all isAllowed = true

namespace Passes

theorem refl (s : Text) : Passes s s := ⟨[], rfl, rfl⟩

theorem trans {s t r : Text} (h : Passes s t) (g : Passes t r) : Passes s r := by
  obtain ⟨p, rfl, hp⟩ := h
  obtain ⟨q, rfl, hq⟩ := g
  exact ⟨p ++ q, by simp, by rw [List.all_append, hp, hq]; rfl⟩

theorem cons {c : Char} (hc : isAllowed c = true) {s r : Text} (h : Passes s r) : Passes (c :: s) r :=
  trans ⟨[c], rfl, by simp [hc]⟩ h

theorem dropWhile {p : Char → Bool} {s : Text} (h : (s.takeWhile p).all isAllowed = true) :
    Passes s (s.dropWhile p) :=
  ⟨s.takeWhile p, List.takeWhile_append_dropWhile.symm, h⟩

theorem dropWhile_of {p : Char → Bool} (h : ∀ c, p c = true → isAllowed c = true) (s : Text) :
    Passes s (s.dropWhile p) := by
  apply dropWhile
  exact List.all_eq_true.2 fun c hc => h c (List.all_eq_true.1 List.all_takeWhile c hc)

theorem skipSpace (s : Text) : Passes s (skipSpace s) :=
  dropWhile_of (fun _ => isAllowed_of_isSpace) s

theorem of_after? {w s r : Text} (hw : w.all isAllowed = true) (h : Text.after? w s = some r) :
    Passes s r :=
  ⟨w, Text.after?_eq_some.1 h, hw⟩

theorem of_cut? {w a s r : Text} (hw : w.all isAllowed = true) (ha : a.all isAllowed = true)
    (h : Text.cut? w s = some (a, r)) : Passes s r :=
  ⟨a ++ w, Text.append_of_cut? h, by rw [List.all_append, ha, hw]; rfl⟩

/-- One of two readers, and then another one. -/
theorem of_ite {α : Type} {c : Prop} [Decidable c] {x y : Option Text} {k : Text → Option α} {a : α}
    {s r : Text} (h : (if c then x.bind k else y.bind k) = some a)
    (hx : c → ∀ t, x = some t → Passes s t) (hy : ∀ t, y = some t → Passes s t)
    (hk : ∀ t, k t = some a → Passes t r) : Passes s r := by
  split at h
  · next hc =>
    obtain ⟨t, ht, hr⟩ := Option.bind_eq_some_iff.1 h
    exact (hx hc t ht).trans (hk t hr)
  · obtain ⟨t, ht, hr⟩ := Option.bind_eq_some_iff.1 h
    exact (hy t ht).trans (hk t hr)

theorem of_some {s t : Text} (h : some s = some t) : Passes s t := by
  rw [← Option.some.inj h]
  exact refl s

theorem all_isAllowed {s : Text} (h : Passes s []) : s.all isAllowed = true := by
  obtain ⟨p, rfl, hp⟩ := h
  simpa using hp

end Passes

theorem Name.passes_of_read? {s r : Text} {n : Name} (h : Name.read? s = some (n, r)) :
    Passes s r := by
  have hword (t : Text) : Passes t (t.dropWhile isNameChar) :=
    Passes.dropWhile_of (fun _ => isAllowed_of_isNameChar) t
  have hs := hword s
  unfold Name.read? at h
  split at h
  · next t ht =>
    simp only [Option.ite_none_right_eq_some, Option.some.injEq, Prod.mk.injEq] at h
    rw [ht] at hs
    rw [← h.2.2]
    exact hs.trans (Passes.cons (by decide) (hword t))
  · simp only [Option.ite_none_right_eq_some, Option.some.injEq, Prod.mk.injEq] at h
    rw [← h.2.2]
    exact hs

theorem Name.passes_of_skip? {s r : Text} (h : Name.skip? s = some r) : Passes s r := by
  have hcolon : ∀ c, (isNameChar c || c == ':') = true → isAllowed c = true := by
    intro c hc
    rw [Bool.or_eq_true, beq_iff_eq] at hc
    rcases hc with hc | rfl
    · exact isAllowed_of_isNameChar hc
    · decide
  cases s with
  | nil => simp [Name.skip?] at h
  | cons c s =>
    simp only [Name.skip?, Option.ite_none_right_eq_some, Option.some.injEq] at h
    obtain ⟨hc, rfl⟩ := h
    refine Passes.cons ?_ (Passes.dropWhile_of hcolon s)
    rw [Bool.or_eq_true, beq_iff_eq] at hc
    rcases hc with hc | rfl
    · exact isAllowed_of_isNameStart hc
    · decide

theorem passes_of_rawAttribute? {s r : Text} {a : Name × Text}
    (h : rawAttribute? s = some (a, r)) : Passes s r := by
  simp only [rawAttribute?, bind, Option.bind_eq_some_iff, Prod.exists] at h
  obtain ⟨name, s₁, h₁, s₂, h₂, h⟩ := h
  have hequals : Passes s s₂ := (Name.passes_of_read? h₁).trans
    ((Passes.skipSpace s₁).trans (Passes.of_after? (by decide) h₂))
  split at h
  · next q t ht =>
    simp only [Option.ite_none_right_eq_some, Option.map_eq_some_iff, Prod.mk.injEq,
      Bool.and_eq_true] at h
    obtain ⟨⟨hq, hvalue⟩, s₄, h₄, -, rfl⟩ := h
    have hquote : isAllowed q = true := by
      simp only [Bool.or_eq_true, beq_iff_eq] at hq
      rcases hq with rfl | rfl <;> decide
    have hopen := Passes.skipSpace s₂
    rw [ht] at hopen
    have hclose : Passes t s₄ := (Passes.dropWhile hvalue).trans
      (Passes.of_after? (by rw [List.all_cons, hquote]; rfl) h₄)
    exact hequals.trans (hopen.trans (Passes.cons hquote hclose))
  · simp at h

theorem passes_of_attributes? {s r : Text} {a : List Attribute × Bool}
    (h : attributes? s = some (a, r)) : Passes s r := by
  fun_induction attributes? s generalizing a r with
  | case1 s r' hs =>
    simp only [Option.some.injEq, Prod.mk.injEq] at h
    have hskip := Passes.skipSpace s
    rw [hs] at hskip
    rw [← h.2]
    exact hskip.trans (Passes.cons (by decide) (Passes.cons (by decide) (Passes.refl r')))
  | case2 s r' hs =>
    simp only [Option.some.injEq, Prod.mk.injEq] at h
    have hskip := Passes.skipSpace s
    rw [hs] at hskip
    rw [← h.2]
    exact hskip.trans (Passes.cons (by decide) (Passes.refl r'))
  | case3 => simp at h
  | case4 s _ name value r' hr _ _ ih =>
    simp only [bind, pure, Option.bind_eq_some_iff, Prod.exists, Option.some.injEq,
      Prod.mk.injEq] at h
    obtain ⟨_, _, as, closed, r'', h', _, rfl⟩ := h
    exact (Passes.skipSpace s).trans ((passes_of_rawAttribute? hr).trans (ih h'))
  | case5 => simp at h

namespace Token

theorem passes_of_comment? {s r : Text} (h : comment? s = some r) : Passes s r := by
  simp only [comment?, bind, Option.bind_eq_some_iff, Option.ite_none_right_eq_some, Prod.exists,
    Option.some.injEq, Bool.and_eq_true] at h
  obtain ⟨inner, s₁, h₁, ⟨⟨hinner, -⟩, -⟩, rfl⟩ := h
  exact Passes.of_cut? (by decide) hinner h₁

theorem passes_of_instruction? {s r : Text} (h : instruction? s = some r) : Passes s r := by
  simp only [instruction?, bind, Option.bind_eq_some_iff, Option.ite_none_left_eq_some,
    Option.ite_none_right_eq_some, Prod.exists, Option.some.injEq] at h
  obtain ⟨-, s₁, h₁, inner, s₂, h₂, hinner, rfl⟩ := h
  exact (Name.passes_of_skip? h₁).trans
    ((Passes.skipSpace s₁).trans (Passes.of_cut? (by decide) hinner h₂))

theorem passes_of_cdata? {s r t : Text} (h : cdata? s = some (t, r)) : Passes s r := by
  simp only [cdata?, bind, Option.bind_eq_some_iff, Option.ite_none_right_eq_some, Prod.exists,
    Option.some.injEq, Prod.mk.injEq] at h
  obtain ⟨inner, s₁, h₁, hinner, -, rfl⟩ := h
  exact Passes.of_cut? (by decide) hinner h₁

theorem passes_of_closing? {s r : Text} {n : Name} (h : closing? s = some (n, r)) : Passes s r := by
  simp only [closing?, bind, pure, Option.bind_eq_some_iff, Prod.exists, Option.some.injEq,
    Prod.mk.injEq] at h
  obtain ⟨name, s₁, h₁, s₂, h₂, -, rfl⟩ := h
  exact (Name.passes_of_read? h₁).trans
    ((Passes.skipSpace s₁).trans (Passes.of_after? (by decide) h₂))

theorem passes_of_chars? {s r t : Text} (h : chars? s = some (t, r)) : Passes s r := by
  simp only [chars?, Option.ite_none_right_eq_some, Option.map_eq_some_iff, Prod.mk.injEq,
    Bool.and_eq_true] at h
  obtain ⟨⟨hraw, -⟩, _, -, -, rfl⟩ := h
  exact Passes.dropWhile hraw

theorem passes_of_opening? {s r : Text} {p : Name × List Attribute × Bool}
    (h : opening? s = some (p, r)) : Passes s r := by
  simp only [opening?, bind, pure, Option.bind_eq_some_iff, Prod.exists, Option.some.injEq,
    Prod.mk.injEq] at h
  obtain ⟨name, s₁, h₁, as, closed, s₂, h₂, -, rfl⟩ := h
  exact (Name.passes_of_read? h₁).trans (passes_of_attributes? h₂)

theorem passes_of_markup? {s r : Text} {t : Token} (h : markup? s = some (t, r)) : Passes s r := by
  unfold markup? at h
  split at h
  · next u =>
    simp only [Option.map_eq_some_iff, Prod.mk.injEq] at h
    obtain ⟨r', h', -, rfl⟩ := h
    exact Passes.cons (by decide) (passes_of_instruction? h')
  · next u =>
    simp only [Option.map_eq_some_iff, Prod.exists, Prod.mk.injEq] at h
    obtain ⟨n, r', h', -, rfl⟩ := h
    exact Passes.cons (by decide) (passes_of_closing? h')
  · split at h
    · next u _ hu =>
      simp only [Option.map_eq_some_iff, Prod.mk.injEq] at h
      obtain ⟨r', h', -, rfl⟩ := h
      exact (Passes.of_after? (by decide) hu).trans (passes_of_comment? h')
    · next u _ hu =>
      simp only [Option.map_eq_some_iff, Prod.exists, Prod.mk.injEq] at h
      obtain ⟨v, r', h', -, rfl⟩ := h
      exact (Passes.of_after? (by decide) hu).trans (passes_of_cdata? h')
    · simp at h
  · simp only [Option.map_eq_some_iff, Prod.exists, Prod.mk.injEq] at h
    obtain ⟨n, as, closed, r', h', -, rfl⟩ := h
    exact passes_of_opening? h'

theorem passes_of_read? {s r : Text} {t : Token} (h : read? s = some (t, r)) : Passes s r := by
  cases s with
  | nil => simp [read?] at h
  | cons c s =>
    rw [read?] at h
    split at h
    · next hc =>
      subst hc
      exact Passes.cons (by decide) (passes_of_markup? h)
    · simp only [Option.map_eq_some_iff, Prod.exists, Prod.mk.injEq] at h
      obtain ⟨v, r', h', -, rfl⟩ := h
      exact passes_of_chars? h'

end Token

theorem Progress.passes_of_run? {p : Progress} {s r : Text} {root : Node}
    (h : p.run? s = some (root, r)) : Passes s r := by
  fun_induction Progress.run? p s with
  | case1 => 
    simp only [Option.some.injEq, Prod.mk.injEq] at h
    rw [h.2]
    exact Passes.refl r
  | case2 => simp at h
  | case3 => simp at h
  | case4 _ _ _ _ _ hread _ _ ih => exact (Token.passes_of_read? hread).trans (ih h)

theorem passes_of_gap? {s r : Text} (h : declaration?.gap? s = some r) : Passes s r := by
  simp only [declaration?.gap?] at h
  split at h
  · rw [← Option.some.inj h]
    exact Passes.skipSpace s
  · simp only [Option.ite_none_right_eq_some, Option.some.injEq] at h
    rw [h.2]
    exact Passes.refl r

theorem passes_of_field? {s r : Text} (h : declaration?.field? s = some r) : Passes s r := by
  simp only [declaration?.field?, Option.map_eq_some_iff, Prod.exists] at h
  obtain ⟨_, _, r', h', rfl⟩ := h
  exact passes_of_rawAttribute? h'

theorem passes_of_declaration? {s r : Text} (h : declaration? s = some r) : Passes s r := by
  have hfield (s t : Text) (h : (declaration?.field? s >>= declaration?.gap?) = some t) :
      Passes s t := by
    obtain ⟨u, hu, ht⟩ := Option.bind_eq_some_iff.1 h
    exact (passes_of_field? hu).trans (passes_of_gap? ht)
  obtain ⟨s₁, h₁, h⟩ := Option.bind_eq_some_iff.1 h
  refine (passes_of_gap? h₁).trans
    (Passes.of_ite h (fun _ => hfield s₁) (by simp) fun s₂ h => ?_)
  refine Passes.of_ite h (fun _ => hfield s₂) (fun _ => Passes.of_some) fun s₃ h => ?_
  refine Passes.of_ite h (fun _ _ => passes_of_field?) (fun _ => Passes.of_some) fun s₄ h => ?_
  exact (Passes.skipSpace s₄).trans (Passes.of_after? (by decide) h)

theorem passes_of_skipAsides? {s r : Text} (h : skipAsides? s = some r) : Passes s r := by
  fun_induction skipAsides? s with
  | case1 s _ _ =>
    rw [← Option.some.inj h]
    exact Passes.skipSpace s
  | case2 s _ _ hread _ ih =>
    exact (Passes.skipSpace s).trans ((Token.passes_of_read? hread).trans (ih h))
  | case3 => simp at h

/-- What is read as a document holds allowed characters only. -/
theorem all_isAllowed_of_parse? {s : Text} {root : Node} (h : parse? s = some root) :
    s.all isAllowed = true := by
  have hdeclaration (hs : Text.startsWith "<?xml ".toList s = true) (t : Text)
      (h : declaration? (s.drop 5) = some t) : Passes s t := by
    obtain ⟨r, hr⟩ := Option.isSome_iff_exists.1 hs
    rw [Text.after?_eq_some.1 hr] at h ⊢
    have hlead : Passes ("<?xml ".toList ++ r) (("<?xml ".toList ++ r).drop 5) :=
      ⟨("<?xml ".toList ++ r).take 5, (List.take_append_drop 5 _).symm, by
        rw [List.take_append_of_le_length (by decide)]
        decide⟩
    exact hlead.trans (passes_of_declaration? h)
  apply Passes.all_isAllowed
  refine Passes.of_ite h hdeclaration (fun _ => Passes.of_some) fun t h => ?_
  simp only [bind, Option.bind_eq_some_iff, Prod.exists, Option.ite_none_right_eq_some,
    List.isEmpty_iff] at h
  obtain ⟨t₁, h₁, t₂, h₂, n, as, closed, t₃, h₃, p, -, root', t₄, h₄, t₅, h₅, rfl, -⟩ := h
  have hlead : Passes t t₂ := (passes_of_skipAsides? h₁).trans (Passes.of_after? (by decide) h₂)
  have hroot : Passes t₂ t₄ := (Token.passes_of_opening? h₃).trans (Progress.passes_of_run? h₄)
  exact hlead.trans (hroot.trans (passes_of_skipAsides? h₅))

end SiteProject.Xml
