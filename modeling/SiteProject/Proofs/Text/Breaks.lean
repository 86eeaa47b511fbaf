import Mathlib.Data.List.Infix
import SiteProject.Proofs.Text.Cut
import SiteProject.Text.Lines

namespace SiteProject.Text

/-- It is the same for all line feeds whether a carriage return stands right before them. -/
def Breaks (returned : Bool) (s : Text) : Prop :=
  ∀ a b, s = a ++ '\n' :: b → (a.getLast? == some '\r') = returned

variable {k : Bool} {s t : Text} {c : Char}

instance : Decidable (Breaks k s) :=
  decidable_of_iff (∀ a ∈ s.inits, (s.drop a.length).head? = some '\n' → (a.getLast? == some '\r') = k) <| by
    constructor
    · rintro h a b rfl
      exact h a (by simp) (by simp)
    · intro h a ha hn
      obtain ⟨t, rfl⟩ := (List.mem_inits a s).1 ha
      rw [List.drop_left] at hn
      obtain ⟨b, rfl⟩ := List.head?_eq_some_iff.1 hn
      exact h a b rfl

theorem breaks_of_notMem (h : '\n' ∉ s) : Breaks k s := by
  rintro a b rfl
  simp at h

theorem Breaks.left (h : Breaks k (s ++ t)) : Breaks k s := by
  rintro a b rfl
  exact h a (b ++ t) (by simp)

/-- No line feed is cut off from a carriage return, and none is brought to one. -/
theorem breaks_append (hseam : s.getLast? ≠ some '\r' ∨ t.head? ≠ some '\n') :
    Breaks k (s ++ t) ↔ Breaks k s ∧ Breaks k t := by
  -- what stands before a line feed of the second text is the same with the first text in front
  have before (a b : Text) (ht : t = a ++ '\n' :: b) :
      ((s ++ a).getLast? == some '\r') = (a.getLast? == some '\r') := by
    cases a with
    | nil =>
      have hs : s.getLast? ≠ some '\r' := hseam.resolve_right fun h => h (by simp [ht])
      simp [hs]
    | cons d a => rw [List.getLast?_append_of_ne_nil s (List.cons_ne_nil d a)]
  constructor
  · intro h
    refine ⟨h.left, fun a b ht => ?_⟩
    rw [← before a b ht]
    exact h (s ++ a) b (by simp [ht])
  · rintro ⟨hs, ht⟩ a b he
    rcases List.append_eq_append_iff.1 he with ⟨a', rfl, h⟩ | ⟨b', rfl, h⟩
    · rw [before a' b h]
      exact ht a' b h
    · cases b' with
      | nil =>
        have hb := before [] b h.symm
        rw [List.append_nil] at hb
        rw [← List.append_nil a, hb]
        exact ht [] b h.symm
      | cons d b' =>
        obtain ⟨rfl, -⟩ := List.cons.inj h
        exact hs a b' rfl

theorem breaks_append_cons (hc : c ≠ '\n') : Breaks k (s ++ c :: t) ↔ Breaks k s ∧ Breaks k (c :: t) :=
  breaks_append (.inr (by simpa using hc))

theorem breaks_plain_append (hn : '\n' ∉ s) (hr : '\r' ∉ s) : Breaks k (s ++ t) ↔ Breaks k t := by
  have hs : s.getLast? ≠ some '\r' := fun hl => hr (List.mem_of_getLast? hl)
  rw [breaks_append (.inl hs)]
  exact and_iff_right (breaks_of_notMem hn)

theorem breaks_cons (hn : c ≠ '\n') (hr : c ≠ '\r') : Breaks k (c :: t) ↔ Breaks k t :=
  breaks_plain_append (s := [c]) (by simpa using hn.symm) (by simpa using hr.symm)

theorem breaks_false_iff : Breaks false s ↔ contains LineEnding.crlf.text s = false := by
  rw [Bool.eq_false_iff, ne_eq, contains_iff]
  constructor
  · rintro h ⟨a, b, rfl⟩
    simpa using h (a ++ ['\r']) b (by simp [LineEnding.text])
  · rintro h a b rfl
    rw [beq_eq_false_iff_ne]
    intro hl
    obtain ⟨a, rfl⟩ := List.getLast?_eq_some_iff.1 hl
    exact h ⟨a, b, by simp [LineEnding.text]⟩

theorem breaks_replace {d : Char} (hn : c ≠ '\n') (hr : c ≠ '\r') (hn' : d ≠ '\n') (hr' : d ≠ '\r')
    (h : Breaks k s) : Breaks k (replace c d s) := by
  have keeps {x y : Char} (hy : y ≠ c ∧ y ≠ d) : (if x = c then d else x) = y ↔ x = y := by
    split
    · next hx => simp [hx, Ne.symm hy.1, Ne.symm hy.2]
    · rfl
  intro a b he
  obtain ⟨a', b', rfl, rfl, hb⟩ := List.map_eq_append_iff.1 he
  obtain ⟨x, b, rfl, hx, -⟩ := List.map_eq_cons_iff.1 hb
  obtain rfl := (keeps ⟨Ne.symm hn, Ne.symm hn'⟩).1 hx
  rw [← h a' b rfl, List.getLast?_map]
  cases a'.getLast? with
  | none => rfl
  | some y => simp [keeps ⟨Ne.symm hr, Ne.symm hr'⟩]

theorem breaks_join (hn : c ≠ '\n') (hr : c ≠ '\r') {ws : List Text} (h : ∀ w ∈ ws, Breaks k w) :
    Breaks k (join [c] ws) := by
  induction ws with
  | nil => exact breaks_of_notMem (by simp)
  | cons w ws ih =>
    rw [List.forall_mem_cons] at h
    cases ws with
    | nil => exact h.1
    | cons v ws =>
      rw [join_cons (List.cons_ne_nil v ws), List.append_assoc, List.singleton_append,
        breaks_append_cons hn, breaks_cons hn hr]
      exact ⟨h.1, ih h.2⟩

/-- A text is split at its first separator, if it has one. -/
theorem split_cases (sep : Char → Bool) (s : Text) :
    split sep s = [s] ∨ ∃ a d b, s = a ++ d :: b ∧ sep d = true ∧ split sep s = a :: split sep b := by
  induction s with
  | nil => exact .inl rfl
  | cons c s ih =>
    by_cases hc : sep c = true
    · exact .inr ⟨[], c, s, rfl, hc, by simp [split, hc]⟩
    · rcases ih with h | ⟨a, d, b, rfl, hd, h⟩
      · exact .inl (by simp [split, hc, h])
      · exact .inr ⟨c :: a, d, b, rfl, hd, by simp [split, hc, h]⟩

theorem breaks_of_mem_split {sep : Char → Bool} (hn : sep '\n' = false) (hr : sep '\r' = false)
    {w : Text} (hw : w ∈ split sep s) (h : Breaks k s) : Breaks k w := by
  induction hs : split sep s generalizing s with
  | nil => exact absurd hs (split_ne_nil sep s)
  | cons v vs ih =>
    rcases split_cases sep s with he | ⟨a, d, b, rfl, hd, he⟩
    · rw [he, List.mem_singleton] at hw
      rwa [hw]
    · have hdn : d ≠ '\n' := fun e => by simp [e, hn] at hd
      have hdr : d ≠ '\r' := fun e => by simp [e, hr] at hd
      rw [breaks_append_cons hdn, breaks_cons hdn hdr] at h
      rw [he, List.mem_cons] at hw
      rcases hw with rfl | hw
      · exact h.1
      · exact ih hw h.2 (List.cons.inj (he.symm.trans hs)).2

end SiteProject.Text
