import SiteProject.Path.Basic

namespace SiteProject.Part

/-- A text that stands for one step down. -/
def IsName (n : Text) : Prop := n ≠ [] ∧ '/' ∉ n ∧ n ≠ ['.'] ∧ n ≠ ['.', '.']

instance (n : Text) : Decidable (IsName n) := inferInstanceAs (Decidable (_ ∧ _))

theorem ofSegment?_of_isName {n : Text} (h : IsName n) : ofSegment? n = some (name n) := by
  obtain ⟨h₁, -, h₂, h₃⟩ := h
  simp [ofSegment?, h₁, h₂, h₃]

/-- A step up, or a step down to a name. -/
def IsStep (p : Part) : Prop := p = up ∨ ∃ n, IsName n ∧ p = name n

theorem isStep_of_ofSegment? {w : Text} {p : Part} (hw : '/' ∉ w) (h : ofSegment? w = some p) :
    IsStep p := by
  unfold ofSegment? at h
  split at h
  · simp at h
  · next h₁ =>
    split at h
    · exact .inl (Option.some.inj h).symm
    · next h₂ =>
      simp only [not_or] at h₁
      exact .inr ⟨w, ⟨h₁.1, hw, h₁.2, h₂⟩, (Option.some.inj h).symm⟩

theorem text_of_ofSegment? {w : Text} {p : Part} (h : ofSegment? w = some p) : p.text = w := by
  unfold ofSegment? at h
  split at h
  · simp at h
  · split at h
    · next hw => rw [← Option.some.inj h, hw]; rfl
    · rw [← Option.some.inj h]; rfl

theorem IsStep.text_ne_nil {p : Part} (h : IsStep p) : p.text ≠ [] := by
  rcases h with rfl | ⟨n, hn, rfl⟩
  · decide
  · exact hn.1

theorem IsStep.slash_notMem_text {p : Part} (h : IsStep p) : '/' ∉ p.text := by
  rcases h with rfl | ⟨n, hn, rfl⟩
  · decide
  · exact hn.2.1

theorem IsStep.ofSegment?_text {p : Part} (h : IsStep p) : ofSegment? p.text = some p := by
  rcases h with rfl | ⟨n, hn, rfl⟩
  · decide
  · exact ofSegment?_of_isName hn

/-- Nothing is left to take back. -/
def Settled (ps : List Part) : Prop :=
  ∃ (base : List Part) (ns : List Text),
    ps = base ++ ns.map name ∧ (base = [root] ∨ ∃ k, base = List.replicate k up)

theorem settled_root (ns : List Text) : Settled (root :: ns.map name) :=
  ⟨[root], ns, rfl, .inl rfl⟩

theorem settled_up (k : Nat) (ns : List Text) : Settled (List.replicate k up ++ ns.map name) :=
  ⟨List.replicate k up, ns, rfl, .inr ⟨k, rfl⟩⟩

@[simp]
theorem push_here (done : List Part) : push done here = done := by
  cases done with
  | nil => rfl
  | cons a done => cases a <;> rfl

@[simp]
theorem push_name (done : List Part) (n : Text) : push done (name n) = name n :: done := by
  cases done with
  | nil => rfl
  | cons a done => cases a <;> rfl

theorem push_replicate_up (k : Nat) :
    push (List.replicate k up) up = List.replicate (k + 1) up := by
  cases k <;> rfl

theorem foldl_push_names (done : List Part) (ns : List Text) :
    (ns.map name).foldl push done = (ns.map name).reverse ++ done := by
  induction ns generalizing done with
  | nil => rfl
  | cons n ns ih => simp [ih]

theorem foldl_push_ups (k : Nat) :
    (List.replicate k up).foldl push [] = List.replicate k up := by
  induction k with
  | zero => rfl
  | succ k ih =>
    rw [List.replicate_succ', List.foldl_append, ih, ← List.replicate_succ', ← push_replicate_up]
    rfl

/-- As many steps up as there are names take them all back. -/
theorem foldl_push_back (ns : List Text) (done : List Part) :
    (List.replicate ns.length up).foldl push (ns.map name ++ done) = done := by
  induction ns with
  | nil => rfl
  | cons n ns ih => exact ih

theorem settled_push {done : List Part} {p : Part} (h : Settled done.reverse) (hp : p ≠ root) :
    Settled (push done p).reverse := by
  obtain ⟨base, ns, hd, hb⟩ := h
  cases p with
  | root => exact absurd rfl hp
  | here => exact ⟨base, ns, by simpa using hd, hb⟩
  | name n => exact ⟨base, ns ++ [n], by simp [hd], hb⟩
  | up =>
    rw [List.reverse_eq_iff] at hd
    rcases List.eq_nil_or_concat ns with rfl | ⟨ms, m, rfl⟩
    · rcases hb with rfl | ⟨k, rfl⟩
      · exact ⟨[root], [], by simp [hd, push], .inl rfl⟩
      · refine ⟨List.replicate (k + 1) up, [], ?_, .inr ⟨k + 1, rfl⟩⟩
        simp only [List.map_nil, List.append_nil, List.reverse_replicate] at hd
        rw [hd, push_replicate_up]
        simp
    · exact ⟨base, ms, by simp [hd, push], hb⟩

theorem settled_foldl_push {done ps : List Part} (h : Settled done.reverse)
    (hp : ∀ p ∈ ps, p ≠ root) : Settled (ps.foldl push done).reverse := by
  induction ps generalizing done with
  | nil => exact h
  | cons p ps ih =>
    exact ih (settled_push h (hp p (by simp))) fun q hq => hp q (by simp [hq])

theorem settle_of_settled {ps : List Part} (h : Settled ps) : settle ps = ps := by
  obtain ⟨base, ns, rfl, hb⟩ := h
  have hbase : base.foldl push [] = base.reverse := by
    rcases hb with rfl | ⟨k, rfl⟩
    · rfl
    · rw [foldl_push_ups, List.reverse_replicate]
  rw [settle, List.foldl_append, hbase, foldl_push_names, List.reverse_append, List.reverse_reverse,
    List.reverse_reverse]

/-- Steps may be settled before others are taken. -/
theorem settle_append {ps : List Part} (h : Settled (settle ps)) (qs : List Part) :
    settle (settle ps ++ qs) = settle (ps ++ qs) := by
  have hs : (settle ps).foldl push [] = ps.foldl push [] :=
    List.reverse_inj.1 (settle_of_settled h)
  calc settle (settle ps ++ qs)
    _ = (qs.foldl push ((settle ps).foldl push [])).reverse := by rw [settle, List.foldl_append]
    _ = (qs.foldl push (ps.foldl push [])).reverse := by rw [hs]
    _ = settle (ps ++ qs) := by rw [settle, List.foldl_append]

theorem foldl_push_filter (done ps : List Part) :
    (ps.filter (· != here)).foldl push done = ps.foldl push done := by
  induction ps generalizing done with
  | nil => rfl
  | cons p ps ih =>
    by_cases hp : p = here
    · subst hp
      simp [ih]
    · simp [hp, ih]

theorem mem_of_mem_foldl_push {done ps : List Part} {q : Part} (h : q ∈ ps.foldl push done) :
    q ∈ done ∨ q ∈ ps := by
  induction ps generalizing done with
  | nil => exact .inl h
  | cons p ps ih =>
    rcases ih h with h | h
    · have hq : q ∈ done ∨ q = p := by
        unfold push at h
        split at h
        · exact .inl h
        · exact .inl (by simp [h])
        · exact .inl h
        · rcases List.mem_cons.1 h with h | h
          · exact .inr h
          · exact .inl h
      rcases hq with hq | rfl
      · exact .inl hq
      · exact .inr (by simp)
    · exact .inr (by simp [h])

/-- The root is never left. -/
theorem root_mem_foldl_push {done ps : List Part} (h : root ∈ done) : root ∈ ps.foldl push done := by
  induction ps generalizing done with
  | nil => exact h
  | cons p ps ih =>
    apply ih
    unfold push
    split
    · exact h
    · simpa using h
    · exact h
    · exact List.mem_cons_of_mem _ h

theorem mem_of_mem_settle {ps : List Part} {q : Part} (h : q ∈ settle ps) : q ∈ ps := by
  rcases mem_of_mem_foldl_push (List.mem_reverse.1 h) with h | h
  · simp at h
  · exact h

@[simp]
theorem between_nil_left (bs : List Part) : between [] bs = bs := by cases bs <;> rfl

theorem between_nil_right (as : List Part) : between as [] = List.replicate as.length up := by
  cases as with
  | nil => rfl
  | cons a as => exact List.map_const'

theorem between_cons_of_ne {a b : Part} (hab : a ≠ b) (hb : b ≠ root) (as bs : List Part) :
    between (a :: as) (b :: bs) = List.replicate (as.length + 1) up ++ b :: bs := by
  rw [between, if_neg hab, if_neg hb, List.map_const', List.length_cons]

theorem mem_of_mem_between {as bs : List Part} {q : Part} (h : q ∈ between as bs) :
    q = up ∨ q ∈ bs := by
  induction as generalizing bs with
  | nil => exact .inr (by simpa using h)
  | cons a as ih =>
    cases bs with
    | nil =>
      rw [between_nil_right] at h
      exact .inl (List.eq_of_mem_replicate h)
    | cons b bs =>
      rw [between] at h
      split at h
      · exact (ih h).imp_right (List.mem_cons_of_mem b)
      · split at h
        · exact .inr h
        · rw [List.map_const', List.mem_append] at h
          exact h.imp_left List.eq_of_mem_replicate

/-- Between names there are steps up and then names of the target. -/
theorem between_names (as bs : List Text) :
    ∃ k cs, cs <:+ bs ∧ between (as.map name) (bs.map name) = List.replicate k up ++ cs.map name := by
  induction as generalizing bs with
  | nil => exact ⟨0, bs, List.suffix_refl bs, by simp⟩
  | cons a as ih =>
    cases bs with
    | nil => exact ⟨(a :: as).length, [], List.suffix_refl [], by simp [between_nil_right]⟩
    | cons b bs =>
      by_cases hab : a = b
      · obtain ⟨k, cs, hcs, he⟩ := ih bs
        exact ⟨k, cs, hcs.trans (List.suffix_cons b bs), by simpa [between, hab] using he⟩
      · refine ⟨as.length + 1, b :: bs, List.suffix_refl _, ?_⟩
        simp [between_cons_of_ne (show name a ≠ name b by simpa using hab)]

/-- Taken from the first place, the way between two places leads to the second. -/
theorem foldl_push_between (as bs : List Text) (done : List Part) :
    (between (as.map name) (bs.map name)).foldl push ((as.map name).reverse ++ done) =
      (bs.map name).reverse ++ done := by
  induction as generalizing bs done with
  | nil =>
    rw [List.map_nil, between_nil_left, foldl_push_names]
    rfl
  | cons a as ih =>
    -- the names that are not shared are taken back, one by one
    have back : (List.replicate (as.length + 1) up).foldl push (((a :: as).map name).reverse ++ done) =
        done := by
      have h := foldl_push_back (a :: as).reverse done
      rwa [List.map_reverse, List.length_reverse] at h
    cases bs with
    | nil =>
      rw [List.map_nil, between_nil_right, List.length_map, List.length_cons, back]
      rfl
    | cons b bs =>
      by_cases hab : a = b
      · subst hab
        have h := ih bs (name a :: done)
        simpa [between] using h
      · have hne : name a ≠ name b := by simpa using hab
        have h : between ((a :: as).map name) ((b :: bs).map name) =
            List.replicate (as.length + 1) up ++ (b :: bs).map name := by
          simpa using between_cons_of_ne hne (by simp) (as.map name) (bs.map name)
        rw [h, List.foldl_append, back, foldl_push_names]

end SiteProject.Part
