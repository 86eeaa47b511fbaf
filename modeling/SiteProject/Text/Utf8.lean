import SiteProject.Text.Basic

namespace SiteProject.Text.Utf8

/-- How many bytes the text takes. -/
def size : Text → Nat
  | [] => 0
  | c :: s => c.utf8Size + size s

@[simp]
theorem size_nil : size [] = 0 := rfl

@[simp]
theorem size_append (s t : Text) : size (s ++ t) = size s + size t := by
  induction s with
  | nil => simp
  | cons c s ih => simp [size, ih, Nat.add_assoc]

def encode (s : Text) : List UInt8 := s.flatMap String.utf8EncodeChar

/-- A character that has begun: its bits so far, how many bytes it still needs, and the range of the
next one. -/
structure Pending where
  bits : Nat
  missing : Nat
  low : Nat := 0x80
  high : Nat := 0xBF

/-- What one byte yields: the characters that are complete or found malformed (`none`), and the
character that has begun. -/
abbrev Step := List (Option Char) × Option Pending

/-- The first byte of a character. The narrower ranges after `E0`, `ED`, `F0` and `F4` exclude the
overlong forms, the surrogates and what lies above `10FFFF`. -/
def first (b : Nat) : Step :=
  if b < 0x80 then ([some (Char.ofNat b)], none)
  else if b < 0xC2 then ([none], none)
  else if b < 0xE0 then ([], some { bits := b - 0xC0, missing := 1 })
  else if b = 0xE0 then ([], some { bits := 0, missing := 2, low := 0xA0 })
  else if b = 0xED then ([], some { bits := 0xD, missing := 2, high := 0x9F })
  else if b < 0xF0 then ([], some { bits := b - 0xE0, missing := 2 })
  else if b = 0xF0 then ([], some { bits := 0, missing := 3, low := 0x90 })
  else if b < 0xF4 then ([], some { bits := b - 0xF0, missing := 3 })
  else if b = 0xF4 then ([], some { bits := 4, missing := 3, high := 0x8F })
  else ([none], none)

/-- A byte that the pending character cannot take ends it as malformed, and begins anew. -/
def next (p : Pending) (b : Nat) : Step :=
  if p.low ≤ b ∧ b ≤ p.high then
    let bits := p.bits * 64 + (b - 0x80)
    if p.missing ≤ 1 then ([some (Char.ofNat bits)], none)
    else ([], some { bits, missing := p.missing - 1 })
  else
    let (done, pending) := first b
    (none :: done, pending)

def read : Option Pending → List UInt8 → List (Option Char)
  | none, [] => []
  | some _, [] => [none]
  | pending, b :: bs =>
    let (done, pending) :=
      match pending with
      | none => first b.toNat
      | some p => next p b.toNat
    done ++ read pending bs

/-- The text of a byte sequence that has no malformed part. -/
def decode? (bs : List UInt8) : Option Text := (read none bs).mapM id

/-- The text of a byte sequence, with the replacement character for each malformed part. -/
def decodeLossy (bs : List UInt8) : Text := (read none bs).map fun c => c.getD '\uFFFD'

end SiteProject.Text.Utf8
