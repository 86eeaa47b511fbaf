import SiteProject.Text.Blank
import SiteProject.Text.Case

namespace SiteProject.Text

variable {c : Char}

theorem toLower_eq_self (h : c.toNat < 65 ∨ 90 < c.toNat) : c.toLower = c := by
  refine dif_neg fun hu => ?_
  have hge := UInt32.le_iff_toNat_le.1 hu.1
  have hle := UInt32.le_iff_toNat_le.1 hu.2
  change 65 ≤ c.toNat at hge
  change c.toNat ≤ 90 at hle
  omega

theorem toNat_of_isDigit (h : c.isDigit = true) : 48 ≤ c.toNat ∧ c.toNat ≤ 57 := by
  simp only [Char.isDigit, Bool.and_eq_true, decide_eq_true_eq, UInt32.le_iff_toNat_le] at h
  exact h

theorem toLower_of_isDigit (h : c.isDigit = true) : c.toLower = c :=
  toLower_eq_self (.inl (by have := toNat_of_isDigit h; omega))

theorem toLower_of_isBlank (h : isBlank c = true) : c.toLower = c := by
  simp only [isBlank, Bool.or_eq_true, Bool.and_eq_true, decide_eq_true_eq, beq_iff_eq] at h
  exact toLower_eq_self (by omega)

theorem isBlank_of_isDigit (h : c.isDigit = true) : isBlank c = false := by
  obtain ⟨hlow, hhigh⟩ := toNat_of_isDigit h
  simp only [isBlank, Bool.or_eq_false_iff, Bool.and_eq_false_iff, decide_eq_false_iff_not,
    beq_eq_false_iff_ne]
  omega

theorem isBlank_of_toLower (h : isBlank c.toLower = false) : isBlank c = false := by
  rw [Bool.eq_false_iff] at *
  intro hc
  rw [toLower_of_isBlank hc] at h
  exact h hc

theorem isDigit_of_toLower (h : c.toLower.isDigit = false) : c.isDigit = false := by
  rw [Bool.eq_false_iff] at *
  intro hc
  rw [toLower_of_isDigit hc] at h
  exact h hc

theorem lower_append (s t : Text) : lower (s ++ t) = lower s ++ lower t := List.map_append

theorem length_lower (s : Text) : (lower s).length = s.length := List.length_map _

/-- Whether a text starts with a word in any case, the word itself in lower case. -/
theorem sameLetters_take {w : Text} (hw : lower w = w) (s : Text) :
    sameLetters (s.take w.length) w = startsWith w (lower s) := by
  have hiff : sameLetters (s.take w.length) w = true ↔ startsWith w (lower s) = true := by
    rw [sameLetters, hw, beq_iff_eq, lower, List.map_take, startsWith, Option.isSome_iff_exists]
    constructor
    · intro h
      have hs := List.take_append_drop w.length (lower s)
      rw [show (lower s).take w.length = w from h] at hs
      exact ⟨_, after?_eq_some.2 hs.symm⟩
    · rintro ⟨r, hr⟩
      change (lower s).take w.length = w
      rw [after?_eq_some.1 hr, List.take_left]
  exact Bool.eq_iff_iff.2 hiff

end SiteProject.Text
