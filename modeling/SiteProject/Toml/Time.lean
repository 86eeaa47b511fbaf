import SiteProject.Toml.Space

namespace SiteProject.Toml.Time

/-- A number of exactly so many digits within bounds, and what follows it. -/
def number? (count low high : Nat) (s : Text) : Option (Nat × Text) :=
  let ds := s.take count
  let n := ds.foldl (fun n c => n * 10 + (c.toNat - '0'.toNat)) 0
  if ds.length = count ∧ ds.all Char.isDigit ∧ low ≤ n ∧ n ≤ high then some (n, s.drop count)
  else none

def isLeapYear (y : Nat) : Bool := y % 4 == 0 && (y % 100 != 0 || y % 400 == 0)

def daysIn (year month : Nat) : Nat :=
  if month = 2 then if isLeapYear year then 29 else 28
  else if month = 4 ∨ month = 6 ∨ month = 9 ∨ month = 11 then 30
  else 31

def date? (s : Text) : Option Text := do
  let (year, s) ← number? 4 0 9999 s
  let s ← Text.after? ['-'] s
  let (month, s) ← number? 2 1 12 s
  let s ← Text.after? ['-'] s
  let (_, s) ← number? 2 1 (daysIn year month) s
  return s

/-- A point and the digits after it, where both are there. -/
def skipFraction : Text → Text
  | '.' :: d :: s => if d.isDigit then s.dropWhile Char.isDigit else '.' :: d :: s
  | s => s

/-- A leap second is a second. -/
def time? (s : Text) : Option Text := do
  let (_, s) ← number? 2 0 23 s
  let s ← Text.after? [':'] s
  let (_, s) ← number? 2 0 59 s
  let s ← Text.after? [':'] s
  let (_, s) ← number? 2 0 60 s
  return skipFraction s

def hoursMinutes? (s : Text) : Option Text := do
  let (_, s) ← number? 2 0 23 s
  let s ← Text.after? [':'] s
  let (_, s) ← number? 2 0 59 s
  return s

def offset? : Text → Option Text
  | [] => none
  | c :: s =>
    if c = 'Z' ∨ c = 'z' then some s
    else if c = '+' ∨ c = '-' then hoursMinutes? s
    else none

/-- A time after a date, with its offset. -/
def timeOfDate? : Text → Option Text
  | [] => none
  | c :: s =>
    if c = 'T' ∨ c = 't' ∨ c = ' ' then (time? s).map fun s => (offset? s).getD s else none

/-- What follows a date or a time. -/
def read? (s : Text) : Option Text :=
  ((date? s).map fun s => (timeOfDate? s).getD s).or (time? s)

end SiteProject.Toml.Time
