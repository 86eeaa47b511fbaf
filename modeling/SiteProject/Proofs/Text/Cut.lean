import SiteProject.Text.Basic

namespace SiteProject.Text

/-- The first occurrence of a character cuts a text in one way only. -/
theorem append_cons_inj {q : Char} {a b c d : Text} (ha : q ∉ a) (hc : q ∉ c)
    (h : a ++ q :: b = c ++ q :: d) : a = c ∧ b = d := by
  induction a generalizing c with
  | nil =>
    cases c with
    | nil => simpa using h
    | cons x c =>
      obtain ⟨rfl, -⟩ := List.cons.inj h
      exact absurd (by simp) hc
  | cons x a ih =>
    cases c with
    | nil =>
      obtain ⟨rfl, -⟩ := List.cons.inj h
      exact absurd (by simp) ha
    | cons y c =>
      obtain ⟨rfl, ht⟩ := List.cons.inj h
      obtain ⟨rfl, rfl⟩ := ih (fun hx => ha (by simp [hx])) (fun hx => hc (by simp [hx])) ht
      exact ⟨rfl, rfl⟩

/-- A character that a first part does not have lies after that part. -/
theorem exists_append_of_notMem {p : Char} {g u w r : Text} (hp : p ∉ w)
    (h : g ++ p :: u = w ++ r) : ∃ g', g = w ++ g' ∧ r = g' ++ p :: u := by
  rcases List.append_eq_append_iff.1 h with ⟨a, hw, hu⟩ | h
  · cases a with
    | nil => exact ⟨[], by simpa using hw.symm, by simpa using hu.symm⟩
    | cons c a =>
      obtain ⟨rfl, -⟩ := List.cons.inj hu
      exact absurd (by simp [hw]) hp
  · exact h

/-- A class is taken up to a rest that begins with another character. -/
theorem takeWhile_append_of_head? {p : Char → Bool} {w r : Text} (hw : ∀ c ∈ w, p c = true)
    (hr : r.head?.any p = false) : (w ++ r).takeWhile p = w := by
  rw [List.takeWhile_append_of_pos hw]
  cases r with
  | nil => simp
  | cons c r =>
    have hc : p c = false := hr
    rw [List.takeWhile_cons_of_neg (by simp [hc]), List.append_nil]

theorem dropWhile_append_of_head? {p : Char → Bool} {w r : Text} (hw : ∀ c ∈ w, p c = true)
    (hr : r.head?.any p = false) : (w ++ r).dropWhile p = r := by
  rw [List.dropWhile_append_of_pos hw]
  cases r with
  | nil => rfl
  | cons c r =>
    have hc : p c = false := hr
    rw [List.dropWhile_cons_of_neg (by simp [hc])]

theorem contains_iff {word s : Text} : contains word s = true ↔ word <:+: s := by
  rw [contains, Option.isSome_iff_exists]
  induction s with
  | nil =>
    rw [cut?]
    constructor
    · rintro ⟨p, hp⟩
      obtain ⟨r, hr, -⟩ := Option.map_eq_some_iff.1 hp
      exact ⟨[], r, by simpa using (after?_eq_some.1 hr).symm⟩
    · intro h
      rw [List.infix_nil.1 h]
      exact ⟨([], []), rfl⟩
  | cons c s ih =>
    rw [cut?, List.infix_cons_iff]
    cases ha : after? word (c :: s) with
    | some r =>
      have hp : word <+: c :: s := ⟨r, (after?_eq_some.1 ha).symm⟩
      simp [hp]
    | none =>
      have hp : ¬ word <+: c :: s := by
        rintro ⟨r, hr⟩
        rw [← hr, after?_append] at ha
        exact absurd ha (by simp)
      simp only [hp, false_or, ← ih, Option.map_eq_some_iff]
      constructor
      · rintro ⟨p, q, hq, -⟩
        exact ⟨q, hq⟩
      · rintro ⟨q, hq⟩
        exact ⟨_, q, hq, rfl⟩

/-- A word is found where it first can begin. -/
theorem cut?_of_notMem {c : Char} {a w : Text} (ha : c ∉ a) (r : Text) :
    cut? (c :: w) (a ++ c :: w ++ r) = some (a, r) := by
  induction a with
  | nil =>
    have h : after? (c :: w) (c :: (w ++ r)) = some r := after?_append (c :: w) r
    rw [List.nil_append, List.cons_append, cut?, h]
  | cons d a ih =>
    have hne : c ≠ d := fun e => ha (by simp [e])
    have hn : after? (c :: w) (d :: (a ++ c :: w ++ r)) = none := by rw [after?, if_neg hne]
    rw [List.cons_append, List.cons_append, cut?, hn, ih fun hm => ha (by simp [hm])]
    rfl

/-- A separator splits what stands before it and what stands after it on their own. -/
theorem split_append_sep {sep : Char → Bool} (s : Text) {d : Char} (hd : sep d = true) (t : Text) :
    split sep (s ++ d :: t) = split sep s ++ split sep t := by
  induction s with
  | nil => simp [split, hd]
  | cons c s ih =>
    by_cases hc : sep c = true
    · simp [split, hc, ih]
    · cases hs : split sep s with
      | nil => exact absurd hs (split_ne_nil sep s)
      | cons w ws => simp [split, hc, ih, hs]

theorem join_ne_nil {sep : Text} {ws : List Text} (hne : ws ≠ []) (h : ∀ w ∈ ws, w ≠ []) :
    join sep ws ≠ [] := by
  obtain ⟨w, ws, rfl⟩ := List.exists_cons_of_ne_nil hne
  have hw := h w (by simp)
  cases ws with
  | nil => exact hw
  | cons v ws => simp [join_cons, hw]

theorem head?_join_cons {sep w : Text} (hw : w ≠ []) (ws : List Text) :
    (join sep (w :: ws)).head? = w.head? := by
  obtain ⟨c, s, rfl⟩ := List.exists_cons_of_ne_nil hw
  cases ws <;> rfl

theorem join_concat {sep w : Text} {ws : List Text} (h : ws ≠ []) :
    join sep (ws ++ [w]) = join sep ws ++ sep ++ w := by
  induction ws with
  | nil => exact absurd rfl h
  | cons v ws ih =>
    cases ws with
    | nil => rfl
    | cons u ws =>
      have ih := ih (by simp)
      rw [List.cons_append, join_cons (by simp), ih, join_cons (List.cons_ne_nil u ws)]
      simp only [List.append_assoc]

/-- A character of joined words is one of the separator or of a word. -/
theorem mem_join {c : Char} {sep : Text} {ws : List Text} (h : c ∈ join sep ws) :
    c ∈ sep ∨ ∃ w ∈ ws, c ∈ w := by
  induction ws with
  | nil => simp at h
  | cons w ws ih =>
    cases ws with
    | nil => exact .inr ⟨w, by simp, h⟩
    | cons v ws =>
      rw [join_cons (by simp), List.append_assoc, List.mem_append, List.mem_append] at h
      rcases h with h | h | h
      · exact .inr ⟨w, by simp, h⟩
      · exact .inl h
      · rcases ih h with h | ⟨u, hu, h⟩
        · exact .inl h
        · exact .inr ⟨u, by simp [hu], h⟩

end SiteProject.Text
