import SiteProject.Toml.Space

namespace SiteProject.Toml

/-- The value of a digit in base sixteen, in either case. -/
def hexValue? (c : Char) : Option Nat :=
  if '0' ≤ c ∧ c ≤ '9' then some (c.toNat - '0'.toNat)
  else if 'a' ≤ c ∧ c ≤ 'f' then some (c.toNat - 'a'.toNat + 10)
  else if 'A' ≤ c ∧ c ≤ 'F' then some (c.toNat - 'A'.toNat + 10)
  else none

/-- The character whose code point is written in base sixteen. -/
def charOfHex? (digits : Text) : Option Char := do
  let ds ← digits.mapM hexValue?
  let n := ds.foldl (fun n d => n * 16 + d) 0
  if n.isValidChar then some (Char.ofNat n) else none

/-- What a backslash and one more character stand for. -/
def escaped? : Char → Option Char
  | 'b' => some '\x08'
  | 't' => some '\t'
  | 'n' => some '\n'
  | 'f' => some '\x0C'
  | 'r' => some '\r'
  | '"' => some '"'
  | '\\' => some '\\'
  | _ => none

namespace Quoted

/-- One more character in front of a string that has been read. -/
def before (c : Char) (r : Option (Text × Text)) : Option (Text × Text) :=
  r.map fun p => (c :: p.1, p.2)

/-- The rest of a string in double quotes, and what follows it. -/
def basic? : Text → Option (Text × Text)
  | [] => none
  | '"' :: s => some ([], s)
  | '\\' :: 'u' :: a :: b :: c :: d :: s => do before (← charOfHex? [a, b, c, d]) (basic? s)
  | '\\' :: 'U' :: a :: b :: c :: d :: e :: f :: g :: h :: s => do
    before (← charOfHex? [a, b, c, d, e, f, g, h]) (basic? s)
  | '\\' :: c :: s => do before (← escaped? c) (basic? s)
  | c :: s => if isPlain c then before c (basic? s) else none

/-- The rest of a string in single quotes, and what follows it. -/
def literal? : Text → Option (Text × Text)
  | [] => none
  | '\x27' :: s => some ([], s)
  | c :: s => if isPlain c then before c (literal? s) else none

/-- Whether the reader is past a backslash at the end of a line: the line end has to come, or has come
and space is passed over. -/
inductive Margin
  | off
  | due
  | on
  deriving DecidableEq, Repr

/-- The rest of a string of several lines in double quotes, and what follows it. -/
def basicLines? (m : Margin) : Text → Option (Text × Text)
  | [] => none
  | '\n' :: s =>
    match m with
    | .off => before '\n' (basicLines? .off s)
    | _ => basicLines? .on s
  | ' ' :: s => if m = .off then before ' ' (basicLines? .off s) else basicLines? m s
  | '\t' :: s => if m = .off then before '\t' (basicLines? .off s) else basicLines? m s
  | '"' :: '"' :: '"' :: '"' :: '"' :: s => if m = .due then none else some (['"', '"'], s)
  | '"' :: '"' :: '"' :: '"' :: s => if m = .due then none else some (['"'], s)
  | '"' :: '"' :: '"' :: s => if m = .due then none else some ([], s)
  | '\\' :: 'u' :: a :: b :: c :: d :: s => do
    if m = .due then none else before (← charOfHex? [a, b, c, d]) (basicLines? .off s)
  | '\\' :: 'U' :: a :: b :: c :: d :: e :: f :: g :: h :: s => do
    if m = .due then none
    else before (← charOfHex? [a, b, c, d, e, f, g, h]) (basicLines? .off s)
  | '\\' :: ' ' :: s => if m = .due then none else basicLines? .due s
  | '\\' :: '\t' :: s => if m = .due then none else basicLines? .due s
  | '\\' :: '\n' :: s => if m = .due then none else basicLines? .on s
  | '\\' :: c :: s => do
    if m = .due then none else before (← escaped? c) (basicLines? .off s)
  | c :: s => if m = .due then none else if isPlain c then before c (basicLines? .off s) else none

/-- The rest of a string of several lines in single quotes, and what follows it. -/
def literalLines? : Text → Option (Text × Text)
  | [] => none
  | '\x27' :: '\x27' :: '\x27' :: '\x27' :: '\x27' :: s => some (['\x27', '\x27'], s)
  | '\x27' :: '\x27' :: '\x27' :: '\x27' :: s => some (['\x27'], s)
  | '\x27' :: '\x27' :: '\x27' :: s => some ([], s)
  | '\n' :: s => before '\n' (literalLines? s)
  | c :: s => if isPlain c then before c (literalLines? s) else none

/-- A string that keeps to its line, and what follows it. -/
def line? : Text → Option (Text × Text)
  | '"' :: s => basic? s
  | '\x27' :: s => literal? s
  | _ => none

def skipLine (s : Text) : Text := (afterLine? s).getD s

/-- A string of any kind, and what follows it. -/
def read? : Text → Option (Text × Text)
  | '"' :: '"' :: '"' :: s => basicLines? .off (skipLine s)
  | '\x27' :: '\x27' :: '\x27' :: s => literalLines? (skipLine s)
  | s => line? s

end Quoted
end SiteProject.Toml
