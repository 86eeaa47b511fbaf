import SiteProject.Proofs.Path.Spelling

namespace SiteProject

namespace Part

/-- A step up that has nothing to take back stays. -/
theorem up_mem_foldl_push {done ps : List Part} (h : up ∈ done) : up ∈ ps.foldl push done := by
  induction ps generalizing done with
  | nil => exact h
  | cons p ps ih =>
    apply ih
    unfold push
    split
    · exact h
    · simpa using h
    · exact h
    · exact List.mem_cons_of_mem _ h

/-- Steps that take back names only do not reach what was done before. -/
theorem foldl_push_append {names base qs : List Part} (hn : ∀ q ∈ names, ∃ n, q = name n)
    (hq : ∀ q ∈ qs, q = up ∨ ∃ n, q = name n) (hu : up ∉ qs.foldl push names) :
    qs.foldl push (names ++ base) = qs.foldl push names ++ base := by
  induction qs generalizing names with
  | nil => rfl
  | cons q qs ih =>
    have htail : ∀ q' ∈ qs, q' = up ∨ ∃ n, q' = name n := fun q' h => hq q' (by simp [h])
    rw [List.foldl_cons, List.foldl_cons]
    rw [List.foldl_cons] at hu
    rcases hq q (by simp) with rfl | ⟨n, rfl⟩
    · cases names with
      | nil => exact absurd (up_mem_foldl_push (by simp [push])) hu
      | cons a names =>
        obtain ⟨n, rfl⟩ := hn a (by simp)
        have hnames : ∀ q ∈ names, ∃ n, q = name n := fun q h => hn q (by simp [h])
        exact ih hnames htail hu
    · rw [push_name, push_name] at *
      refine ih ?_ htail hu
      intro q h
      rcases List.mem_cons.1 h with rfl | h
      · exact ⟨n, rfl⟩
      · exact hn q h

theorem settle_append_of_up_notMem {ps qs : List Part} (hp : settle ps = ps)
    (hq : ∀ q ∈ qs, q = up ∨ ∃ n, q = name n) (hu : up ∉ settle qs) :
    settle (ps ++ qs) = ps ++ settle qs := by
  have hdone : ps.foldl push [] = ps.reverse := by
    rw [← List.reverse_eq_iff]
    exact hp
  have hfold := @foldl_push_append [] ps.reverse qs (by simp) hq fun h => hu (List.mem_reverse.2 h)
  rw [settle, List.foldl_append, hdone]
  rw [List.nil_append] at hfold
  rw [hfold, List.reverse_append, List.reverse_reverse, settle]

end Part

namespace Path

open SiteProject.Part (IsName settle)

/-- The second path lies below the first one. -/
def encloses (p q : Path) : Bool := p.holds q && !p.same q

/-- The path leads from a folder to a place below it: it is relative, and does not climb out. -/
def descends (p : Path) : Bool :=
  !p.isAbsolute && !p.normalize.parts.contains .up && !p.normalize.parts.isEmpty

theorem holds_iff {p q : Path} : p.holds q = true ↔ ∃ ps, q.parts = p.parts ++ ps := by
  rw [holds, List.isPrefixOf_iff_prefix]
  constructor
  · rintro ⟨ps, h⟩
    exact ⟨ps, h.symm⟩
  · rintro ⟨ps, h⟩
    exact ⟨ps, h.symm⟩

theorem encloses_of_parts {p q : Path} {ps : List Part} (hne : ps ≠ [])
    (h : q.parts = p.parts ++ ps) : p.encloses q = true := by
  have hsame : p.same q = false := by
    rw [same, h, beq_eq_false_iff_ne]
    intro he
    exact hne (List.self_eq_append_right.1 he)
  rw [encloses, holds_iff.2 ⟨ps, h⟩, hsame]
  rfl

theorem holds_of_encloses {p q : Path} (h : p.encloses q = true) : p.holds q = true :=
  (Bool.and_eq_true_iff.1 h).1

theorem holds_refl (p : Path) : p.holds p = true := holds_iff.2 ⟨[], (List.append_nil _).symm⟩

theorem holds_trans {p q r : Path} (h₁ : p.holds q = true) (h₂ : q.holds r = true) :
    p.holds r = true := by
  obtain ⟨ps, hp⟩ := holds_iff.1 h₁
  obtain ⟨qs, hq⟩ := holds_iff.1 h₂
  exact holds_iff.2 ⟨ps ++ qs, by rw [hq, hp, List.append_assoc]⟩

theorem head?_split_append_slash (a b : Text) :
    (Text.split (· == '/') (a ++ '/' :: b)).head? = (Text.split (· == '/') a).head? := by
  obtain ⟨w, ws, hw⟩ := List.exists_cons_of_ne_nil (Text.split_ne_nil (· == '/') a)
  rw [Text.split_append_sep a (by simp) b, hw]
  rfl

theorem isAbsolute_of_isName {n : Text} (hn : IsName n) : isAbsolute ⟨n⟩ = false := by
  apply isAbsolute_of_head?
  intro h
  exact hn.2.1 (List.mem_of_mem_head? h)

theorem split_of_isName {n : Text} (hn : IsName n) : Text.split (· == '/') n = [n] := by
  apply Text.split_of_forall
  intro c hc
  have hne : c ≠ '/' := fun e => hn.2.1 (e ▸ hc)
  simpa using hne

theorem steps_of_isName {n : Text} (hn : IsName n) : steps n = [.name n] := by
  rw [steps, split_of_isName hn, List.filterMap_cons, Part.ofSegment?_of_isName hn]
  rfl

/-- A name that is joined to a path is one more part of it. -/
theorem parts_joinText_name (p : Path) {n : Text} (hn : IsName n) :
    (p.joinText n).parts = p.parts ++ [.name n] := by
  have hq := isAbsolute_of_isName hn
  have hsplit := split_of_isName hn
  have hsteps := steps_of_isName hn
  have hhead : (p.join ⟨n⟩).isAbsolute = false →
      ((Text.split (· == '/') (p.join ⟨n⟩).text).head? = some ['.'] ↔
        (Text.split (· == '/') p.text).head? = some ['.']) := by
    intro ha
    rw [join, hq]
    simp only [Bool.false_eq_true, if_false]
    split
    · next h =>
      rcases List.eq_nil_or_concat p.text with hp | ⟨s, c, hp⟩
      · simp [hp, hsplit, Text.split, hn.2.2.1]
      · have hc : c = '/' := by simpa [isEmpty, hp] using h
        rw [hp, hc, List.concat_eq_append]
        have h₁ := head?_split_append_slash s []
        have h₂ := head?_split_append_slash s n
        simp only [List.append_assoc, List.singleton_append]
        rw [h₁, h₂]
    · rw [head?_split_append_slash]
  rw [joinText, parts_eq, parts_eq, steps_join p hq, isAbsolute_join p hq, hsteps, List.append_assoc]
  rw [isAbsolute_join p hq] at hhead
  by_cases ha : p.isAbsolute = true
  · simp [ha]
  · have ha : p.isAbsolute = false := by simpa using ha
    simp [ha, hhead ha]

theorem settle_parts_normalize (p : Path) : settle p.normalize.parts = p.normalize.parts := by
  rw [parts_normalize, Part.settle_of_settled (settled_settle_parts p)]

theorem settle_parts_joinText_name {p : Path} (hp : settle p.parts = p.parts) {n : Text}
    (hn : IsName n) : settle (p.joinText n).parts = (p.joinText n).parts := by
  have hname : settle [.name n] = [.name n] := rfl
  rw [parts_joinText_name p hn, Part.settle_append_of_up_notMem hp (by simp) (by simp [hname]), hname]

theorem parts_normalize_of_relative {q : Path} (ha : q.isAbsolute = false) :
    q.normalize.parts = settle (steps q.text) := by
  have h := settle_append_parts [] q
  rw [ha, List.nil_append] at h
  rw [parts_normalize, h]
  rfl

/-- A relative path that does not climb is taken after the steps of the folder. -/
theorem parts_normalize_join (p : Path) {q : Path} (ha : q.isAbsolute = false)
    (hu : .up ∉ q.normalize.parts) :
    (p.join q).normalize.parts = p.normalize.parts ++ q.normalize.parts := by
  rw [parts_normalize_of_relative ha] at hu ⊢
  have hpart : ∀ s ∈ steps q.text, s = .up ∨ ∃ n, s = .name n := by
    intro s hs
    rcases isStep_of_mem_steps hs with hs | ⟨n, -, hs⟩
    · exact .inl hs
    · exact .inr ⟨n, hs⟩
  have hp := Part.settle_of_settled (settled_settle_parts p)
  rw [parts_normalize, settle_parts_join p ha, parts_normalize]
  exact Part.settle_append_of_up_notMem hp hpart hu

/-- What descends leads from any folder to a place below it. -/
theorem encloses_normalize_joinText {p : Path} (hp : settle p.parts = p.parts) {t : Text}
    (ht : descends ⟨t⟩ = true) : p.encloses (p.joinText t).normalize = true := by
  simp only [descends, Bool.and_eq_true, Bool.not_eq_true'] at ht
  obtain ⟨⟨ha, hu⟩, hne⟩ := ht
  have hparts : (p.joinText t).normalize.parts = p.parts ++ (normalize ⟨t⟩).parts := by
    rw [joinText, parts_normalize_join p ha (by simpa using hu), parts_normalize p, hp]
  exact encloses_of_parts (by simpa using hne) hparts

/-- Neither path lies at or below the other. -/
def apart (p q : Path) : Bool := !p.holds q && !q.holds p

theorem holds_eq_false_of_apart {p q r : Path} (h : p.apart q = true) (hr : q.holds r = true) :
    p.holds r = false := by
  simp only [apart, Bool.and_eq_true, Bool.not_eq_true'] at h
  rw [Bool.eq_false_iff]
  intro hp
  rw [holds, List.isPrefixOf_iff_prefix] at hp hr
  rcases List.prefix_or_prefix_of_prefix hp hr with hpq | hqp
  · exact Bool.eq_false_iff.1 h.1 (List.isPrefixOf_iff_prefix.2 hpq)
  · exact Bool.eq_false_iff.1 h.2 (List.isPrefixOf_iff_prefix.2 hqp)

theorem same_eq_false_of_apart {p q r : Path} (h : p.apart q = true) (hr : q.holds r = true) :
    r.same p = false := by
  rw [Bool.eq_false_iff]
  intro hs
  rw [same, beq_iff_eq] at hs
  have hp : p.holds r = true := holds_iff.2 ⟨[], by rw [hs, List.append_nil]⟩
  rw [holds_eq_false_of_apart h hr] at hp
  cases hp

end Path
end SiteProject
