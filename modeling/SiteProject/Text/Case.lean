import SiteProject.Text.Basic

namespace SiteProject.Text

/-- The letters in lower case, of the ASCII letters only. -/
def lower (s : Text) : Text := s.map Char.toLower

/-- Equal up to the case of ASCII letters. -/
def sameLetters (a b : Text) : Bool := lower a == lower b

theorem sameLetters_refl (a : Text) : sameLetters a a = true := by simp [sameLetters]

theorem sameLetters_comm (a b : Text) : sameLetters a b = sameLetters b a := by
  simp [sameLetters, Bool.beq_eq_decide_eq, eq_comm]

/-- Lower case where it ends in an ASCII letter: besides `A` to `Z`, the Kelvin sign lowers to `k`.
All other characters are kept. -/
def lowerToLatin (s : Text) : Text :=
  s.map fun c => if c = '\u212A' then 'k' else c.toLower

end SiteProject.Text
