import Mathlib.Data.List.Infix
import SiteProject.Proofs.Text.Cut

namespace SiteProject.Text

/-- Only the whole word both begins and ends it. -/
def Unbordered (w : Text) : Prop := ∀ u ∈ w.tail.tails, u <+: w → u = []

instance : DecidablePred Unbordered := fun w =>
  inferInstanceAs (Decidable (∀ u ∈ w.tail.tails, u <+: w → u = []))

/-- The word does not begin in a text before it that does not have it. -/
theorem after?_of_unbordered {w a : Text} (hw : Unbordered w) (hne : a ≠ []) (ha : contains w a = false)
    (r : Text) : after? w (a ++ w ++ r) = none := by
  rw [Option.eq_none_iff_forall_ne_some]
  intro t ht
  rw [after?_eq_some, List.append_assoc] at ht
  have hinfix : ¬ w <:+: a := fun h => by simp [contains_iff.2 h] at ha
  rcases List.append_eq_append_iff.1 ht with ⟨u, rfl, hu⟩ | ⟨u, rfl, -⟩
  · -- the word reaches over the end of the text, so that its rest begins the word anew
    have hprefix : u <+: a ++ u := by
      have hstart : u <+: a ++ u ++ r := ⟨t, hu.symm⟩
      exact List.prefix_of_prefix_length_le hstart ⟨r, rfl⟩ (by simp)
    obtain ⟨c, a, rfl⟩ := List.exists_cons_of_ne_nil hne
    have hnil : u = [] := hw u (by simp) hprefix
    subst hnil
    exact hinfix (by simp)
  · exact hinfix ⟨[], u, by simp⟩

theorem contains_eq_false_of_cons {w a : Text} {c : Char} (h : contains w (c :: a) = false) :
    contains w a = false := by
  rw [Bool.eq_false_iff] at *
  intro ha
  exact h (contains_iff.2 ((contains_iff.1 ha).trans (List.suffix_cons c a).isInfix))

/-- A word is cut out where it first is. -/
theorem cut?_of_unbordered {w a : Text} (hne : w ≠ []) (hw : Unbordered w) (ha : contains w a = false)
    (r : Text) : cut? w (a ++ w ++ r) = some (a, r) := by
  induction a with
  | nil =>
    obtain ⟨c, w, rfl⟩ := List.exists_cons_of_ne_nil hne
    exact cut?_of_notMem (by simp) r
  | cons c a ih =>
    have hn : after? w (c :: (a ++ w ++ r)) = none := after?_of_unbordered hw (by simp) ha r
    rw [List.cons_append, List.cons_append, cut?, hn, ih (contains_eq_false_of_cons ha)]
    rfl

theorem notMem_of_cut? {q : Char} {s a r : Text} (h : cut? [q] s = some (a, r)) : q ∉ a := by
  induction s generalizing a with
  | nil => simp [cut?, after?] at h
  | cons c s ih =>
    rw [cut?] at h
    split at h
    · obtain ⟨rfl, -⟩ := Prod.mk.inj (Option.some.inj h)
      simp
    · next hn =>
      obtain ⟨⟨a, r⟩, hp, he⟩ := Option.map_eq_some_iff.1 h
      obtain ⟨rfl, rfl⟩ := Prod.mk.inj he
      have hne : q ≠ c := by
        rintro rfl
        simp [after?] at hn
      simp [hne, ih hp]

end SiteProject.Text
