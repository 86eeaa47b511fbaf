import SiteProject.Toml.Quoted

namespace SiteProject.Toml

def isHexDigit (c : Char) : Bool := (hexValue? c).isSome

def isOctalDigit (c : Char) : Bool := '0' ≤ c && c ≤ '7'

def isBinaryDigit (c : Char) : Bool := c == '0' || c == '1'

/-- More digits, each of which may have one underscore in front. -/
def moreDigits? (isDigit : Char → Bool) : Text → Option (Text × Text)
  | [] => some ([], [])
  | '_' :: s =>
    match s with
    | d :: s => if isDigit d then Quoted.before d (moreDigits? isDigit s) else none
    | [] => none
  | d :: s => if isDigit d then Quoted.before d (moreDigits? isDigit s) else some ([], d :: s)

def digits? (isDigit : Char → Bool) : Text → Option (Text × Text)
  | d :: s => if isDigit d then Quoted.before d (moreDigits? isDigit s) else none
  | [] => none

/-- The number that digits write in a base. -/
def valueOf (base : Nat) (digits : Text) : Nat :=
  digits.foldl (fun n c => n * base + (hexValue? c).getD 0) 0

/-- Whether there is a minus sign in front, and what follows the sign. -/
def sign : Text → Bool × Text
  | '-' :: s => (true, s)
  | '+' :: s => (false, s)
  | s => (false, s)

/-- Decimal digits, of which the first is zero only if it is alone. -/
def decimal? : Text → Option (Text × Text)
  | '0' :: s => some (['0'], s)
  | s => digits? Char.isDigit s

def integerLimit : Nat := UInt64.size / 2

def based? (base : Nat) (isDigit : Char → Bool) (s : Text) : Option Text := do
  let (ds, r) ← digits? isDigit s
  if valueOf base ds < integerLimit then some r else none

/-- What follows an integer. -/
def integer? (s : Text) : Option Text :=
  match s with
  | '0' :: 'x' :: s => based? 16 isHexDigit s
  | '0' :: 'o' :: s => based? 8 isOctalDigit s
  | '0' :: 'b' :: s => based? 2 isBinaryDigit s
  | s => do
    let (negative, s) := sign s
    let (ds, r) ← decimal? s
    let n := valueOf 10 ds
    if n < integerLimit ∨ (negative ∧ n = integerLimit) then some r else none

/-- The least number that rounds to infinity in double precision. -/
def floatLimit : Nat := Nat.pow 2 1024 - Nat.pow 2 970

/-- Whether the digits, times a power of ten, are below the limit. Far from it their count decides. -/
def isFinite (digits : Text) (exponent : Int) : Bool :=
  let n := valueOf 10 digits
  let length : Int := (Nat.toDigits 10 n).length
  if n = 0 ∨ length + exponent < 300 then true
  else if length + exponent > 310 then false
  else if exponent < 0 then n < floatLimit * Nat.pow 10 exponent.natAbs
  else n * Nat.pow 10 exponent.natAbs < floatLimit

/-- An exponent, and what follows it. -/
def exponent? : Text → Option (Int × Text)
  | [] => none
  | c :: s =>
    if c = 'e' ∨ c = 'E' then do
      let (negative, s) := sign s
      let (ds, r) ← digits? Char.isDigit s
      let n : Int := valueOf 10 ds
      some (if negative then -n else n, r)
    else none

/-- The digits after a point, and what follows them. -/
def fraction? : Text → Option (Text × Text)
  | '.' :: s => digits? Char.isDigit s
  | _ => none

def unbounded? (s : Text) : Option Text :=
  (Text.after? ['i', 'n', 'f'] s).or (Text.after? ['n', 'a', 'n'] s)

/-- What follows a floating-point number: digits with a fraction, an exponent or both, or one of the
words for infinity and for no number. -/
def float? (s : Text) : Option Text :=
  let (negative, s) := sign s
  (unbounded? s).or do
    let (whole, s) ← decimal? s
    let (fraction, afterFraction) := (fraction? s).getD ([], s)
    let (exponent, r) := (exponent? afterFraction).getD (0, afterFraction)
    if r.length = s.length then none
    else if negative ∨ isFinite (whole ++ fraction) (exponent - fraction.length) then some r
    else none

end SiteProject.Toml
