import Mathlib.Data.List.DropRight
import Mathlib.Data.List.TakeWhile
import SiteProject.Proofs.Text.Cut
import SiteProject.Text.Blank

namespace SiteProject.Text

theorem all_isBlank_of_trim {s : Text} (h : trim s = []) : ∀ c ∈ s, isBlank c = true := by
  obtain ⟨t, ht, hb⟩ := dropTail_append isBlank (trimStart s)
  have hnil : dropTail isBlank (trimStart s) = [] := h
  rw [hnil, List.nil_append] at ht
  intro c hc
  rw [← List.takeWhile_append_dropWhile (p := isBlank) (l := s), List.mem_append] at hc
  rcases hc with hc | hc
  · exact List.mem_takeWhile_imp hc
  · exact hb c (ht ▸ hc)

theorem trim_of_forall {s : Text} (h : ∀ c ∈ s, isBlank c = true) : trim s = [] := by
  have hnil : trimStart (s ++ []) = [] := dropWhile_append_of_head? h rfl
  rw [List.append_nil] at hnil
  rw [trim, hnil]
  rfl

theorem trim_ne_nil_iff {s : Text} : trim s ≠ [] ↔ ∃ c ∈ s, isBlank c = false := by
  constructor
  · intro h
    by_contra hn
    refine h (trim_of_forall fun c hc => ?_)
    simpa using fun hb => hn ⟨c, hc, hb⟩
  · rintro ⟨c, hc, hb⟩ h
    rw [all_isBlank_of_trim h c hc] at hb
    cases hb

theorem trimStart_eq_self_iff {s : Text} : trimStart s = s ↔ s.head?.any isBlank = false := by
  cases s with
  | nil => exact ⟨fun _ => rfl, fun _ => rfl⟩
  | cons c s =>
    rw [trimStart, List.head?_cons, Option.any_some]
    by_cases hc : isBlank c = true
    · rw [List.dropWhile_cons_of_pos hc, hc]
      have hlong : s.dropWhile isBlank ≠ c :: s := by
        intro h
        have hle := (List.dropWhile_suffix (l := s) isBlank).length_le
        rw [h, List.length_cons] at hle
        omega
      simp [hlong]
    · rw [List.dropWhile_cons_of_neg hc]
      simpa using hc

theorem trimEnd_eq_self_iff {s : Text} : trimEnd s = s ↔ s.getLast?.any isBlank = false := by
  change s.rdropWhile isBlank = s ↔ _
  rw [List.rdropWhile_eq_self_iff]
  rcases List.eq_nil_or_concat s with rfl | ⟨t, c, rfl⟩
  · simp
  · simp

theorem head?_trimEnd {p : Char → Bool} (s : Text) (h : s.head?.any p = false) :
    (trimEnd s).head?.any p = false := by
  obtain ⟨t, ht⟩ : trimEnd s <+: s := List.rdropWhile_prefix isBlank s
  cases hs : trimEnd s with
  | nil => rfl
  | cons c r =>
    rw [← ht, hs] at h
    exact h

theorem getLast?_any_of_forall {p : Char → Bool} {s : Text} (h : ∀ c ∈ s, p c = false) :
    s.getLast?.any p = false := by
  cases hs : s.getLast? with
  | none => rfl
  | some c => exact h c (List.mem_of_getLast? hs)

theorem ends_trim (s : Text) :
    (trim s).head?.any isBlank = false ∧ (trim s).getLast?.any isBlank = false := by
  have hfirst : trimStart (trimStart s) = trimStart s := List.dropWhile_idempotent isBlank s
  have hlast : trimEnd (trim s) = trim s := List.rdropWhile_idempotent isBlank _
  exact ⟨head?_trimEnd _ (trimStart_eq_self_iff.1 hfirst), trimEnd_eq_self_iff.1 hlast⟩

/-- Trimmed text neither begins nor ends with a blank. -/
theorem trim_eq_self_iff {s : Text} :
    trim s = s ↔ s.head?.any isBlank = false ∧ s.getLast?.any isBlank = false := by
  constructor
  · intro h
    rw [← h]
    exact ends_trim s
  · rintro ⟨hfirst, hlast⟩
    rw [trim, trimStart_eq_self_iff.2 hfirst, trimEnd_eq_self_iff.2 hlast]

theorem trim_eq_self_of_forall {s : Text} (h : ∀ c ∈ s, isBlank c = false) : trim s = s := by
  refine trim_eq_self_iff.2 ⟨?_, getLast?_any_of_forall h⟩
  cases s with
  | nil => rfl
  | cons c s => exact h c (by simp)

@[simp]
theorem trim_trim (s : Text) : trim (trim s) = trim s := trim_eq_self_iff.2 (ends_trim s)

/-- Of the other characters none is taken away. -/
theorem count_trim {c : Char} (hc : isBlank c = false) (s : Text) : (trim s).count c = s.count c := by
  have hnone {t : Text} (ht : ∀ d ∈ t, isBlank d = true) : t.count c = 0 := by
    refine List.count_eq_zero.2 fun hm => ?_
    rw [ht c hm] at hc
    cases hc
  have hfirst : ∀ d ∈ s.takeWhile isBlank, isBlank d = true := fun _ => List.mem_takeWhile_imp
  obtain ⟨t, hlast, ht⟩ := dropTail_append isBlank (trimStart s)
  calc (trim s).count c
    _ = (trimStart s).count c := by rw [hlast, List.count_append, hnone ht, trim, trimEnd, Nat.add_zero]
    _ = s.count c := by
      rw [← List.takeWhile_append_dropWhile (p := isBlank) (l := s), List.count_append, hnone hfirst,
        Nat.zero_add, trimStart]
      simp

theorem trimStart_blanks {a : Text} (ha : ∀ c ∈ a, isBlank c = true) (s : Text) :
    trimStart (a ++ s) = trimStart s :=
  List.dropWhile_append_of_pos ha

theorem trimEnd_blanks {b : Text} (hb : ∀ c ∈ b, isBlank c = true) (s : Text) :
    trimEnd (s ++ b) = trimEnd s := by
  rw [trimEnd, dropTail, List.reverse_append,
    List.dropWhile_append_of_pos fun c hc => hb c (List.mem_reverse.1 hc)]
  rfl

/-- Only blanks before the first character that is none are trimmed. -/
theorem trimStart_append {s : Text} (hs : s.head?.any isBlank = false) (a : Text) :
    trimStart (a ++ s) = trimStart a ++ s := by
  rw [trimStart, List.dropWhile_append]
  split
  · next h =>
    rw [List.isEmpty_iff] at h
    rw [trimStart, h]
    exact trimStart_eq_self_iff.2 hs
  · rfl

theorem trimEnd_append {s : Text} (hs : s.getLast?.any isBlank = false) (b : Text) :
    trimEnd (s ++ b) = s ++ trimEnd b := by
  have hself : dropTail isBlank s = s := trimEnd_eq_self_iff.2 hs
  rw [trimEnd, dropTail, List.reverse_append, List.dropWhile_append]
  split
  · next h =>
    rw [List.isEmpty_iff] at h
    rw [trimEnd, dropTail, h]
    simpa [dropTail] using hself
  · rw [List.reverse_append, List.reverse_reverse]
    rfl

/-- Around a text without blanks at its ends, only what is around it is trimmed. -/
theorem trim_append {s : Text} (hne : s ≠ []) (hfirst : s.head?.any isBlank = false)
    (hlast : s.getLast?.any isBlank = false) (a b : Text) :
    trim (a ++ s ++ b) = trimStart a ++ s ++ trimEnd b := by
  have hstart : (s ++ b).head?.any isBlank = false := by
    rwa [List.head?_append_of_ne_nil s hne]
  have hend : (trimStart a ++ s).getLast?.any isBlank = false := by
    rwa [List.getLast?_append_of_ne_nil _ hne]
  rw [trim, List.append_assoc, trimStart_append hstart, ← List.append_assoc, trimEnd_append hend]

/-- Blanks around a text are trimmed with its own. -/
theorem trim_surrounded {a b : Text} (ha : ∀ c ∈ a, isBlank c = true) (hb : ∀ c ∈ b, isBlank c = true)
    (s : Text) : trim (a ++ s ++ b) = trim s := by
  rw [trim, trim, List.append_assoc, trimStart_blanks ha, trimStart, List.dropWhile_append]
  split
  · next h => rw [List.dropWhile_eq_nil_iff.2 hb, trimStart, List.isEmpty_iff.1 h]
  · exact trimEnd_blanks hb _

theorem trim_sublist (s : Text) : (trim s).Sublist s :=
  (List.rdropWhile_prefix isBlank _).sublist.trans (List.dropWhile_sublist isBlank)

end SiteProject.Text
