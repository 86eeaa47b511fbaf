import SiteProject.Settings.Basic

namespace SiteProject.Command

/-- The arguments on the command line: the solution, options with a value and flags. An option takes the next
argument as its value, unless that begins with a dash, or what follows an equals sign. Two dashes end the
options. The value of an option is looked at when the next argument has been recognized, so an argument
that is unknown goes before a bad value in front of it. -/
structure Arguments where
  solution : Path
  pick : Option Nat := none
  output : Option Path := none
  placement : Option Placement := none
  check : Bool := false
  verbose : Bool := false
  events : Bool := false
  color : Option ColorChoice := none
  deriving DecidableEq, Repr

/-- Why there is nothing to run. -/
inductive Stop
  | help
  | version
  | noSolution
  | unknown
  | badValue
  | badNumber
  | repeated
  | unwantedValue
  deriving DecidableEq, Repr

inductive Choice
  | pick
  | output
  | placement
  | color
  deriving DecidableEq, Repr

inductive Flag
  | check
  | verbose
  | events
  | help
  | version
  deriving DecidableEq, Repr

def choices : List (String × Choice) :=
  [("pick", .pick), ("out-dir", .output), ("outDir", .output), ("mode", .placement),
   ("color", .color)]

def flags : List (String × Flag) :=
  [("check", .check), ("verbose", .verbose), ("json", .events), ("help", .help),
   ("version", .version)]

def shortFlags : List (Char × Flag) := [('v', .verbose), ('h', .help), ('V', .version)]

def named? {α : Type} (table : List (String × α)) (name : Text) : Option α :=
  (table.find? fun r => r.1.toList == name).map Prod.snd

/-- A position fits 64 bits; a plus sign may stand in front. -/
def position? (t : Text) : Option Nat :=
  let ds : Text := if t.head? == some '+' then t.tail else t
  let n := ds.foldl (fun n c => n * 10 + (c.toNat - '0'.toNat)) 0
  if ds ≠ [] ∧ ds.all Char.isDigit ∧ n < UInt64.size then some n else none

/-- An argument that has been recognized and not been looked at. -/
inductive Pending
  | choice (c : Choice) (value : Option Text)
  | solution (t : Text)
  deriving DecidableEq, Repr

/-- What the arguments so far say. -/
structure Draft where
  solution : Option Path := none
  pick : Option Nat := none
  output : Option Path := none
  placement : Option Placement := none
  check : Bool := false
  verbose : Bool := false
  events : Bool := false
  color : Option ColorChoice := none
  pending : Option Pending := none
  deriving DecidableEq, Repr

namespace Draft

/-- A value that is there, or the reason why it is not. -/
def need {α : Type} (why : Stop) : Option α → Except Stop α
  | none => .error why
  | some a => .ok a

/-- An option is given once. -/
def once {α : Type} (old : Option α) : Except Stop Unit :=
  if old.isSome then .error .repeated else .ok ()

def pathOf? (t : Text) : Option Path := if t.isEmpty then none else some ⟨t⟩

def set (d : Draft) (c : Choice) (t : Text) : Except Stop Draft :=
  match c with
  | .pick => do
    once d.pick
    return { d with pick := some (← need .badNumber (position? t)) }
  | .output => do
    once d.output
    return { d with output := some (← need .badValue (pathOf? t)) }
  | .placement => do
    once d.placement
    return { d with placement := some (← need .badValue (Placement.ofName? t)) }
  | .color => do
    once d.color
    return { d with color := some (← need .badValue (ColorChoice.ofName? t)) }

/-- Looks at the argument that is pending. -/
def settle (d : Draft) : Except Stop Draft :=
  match d.pending with
  | none => .ok d
  | some (.choice _ none) => .error .badValue
  | some (.choice c (some t)) => { d with pending := none }.set c t
  | some (.solution t) => do
    return { d with pending := none, solution := some (← need .badValue (pathOf? t)) }

def flag (d : Draft) (f : Flag) : Except Stop Draft := do
  let d ← d.settle
  match f with
  | .help => throw .help
  | .version => throw .version
  | .check => if d.check then throw .repeated else return { d with check := true }
  | .verbose => if d.verbose then throw .repeated else return { d with verbose := true }
  | .events => if d.events then throw .repeated else return { d with events := true }

/-- An option or a flag by its long name, without the dashes. -/
def long (d : Draft) (t : Text) : Except Stop Draft :=
  let (name, value) := match Text.cut? ['='] t with
    | none => (t, none)
    | some (name, value) => (name, some value)
  match named? choices name, named? flags name with
  | some c, _ => do
    let d ← d.settle
    match value with
    | some v => d.set c v
    | none => return { d with pending := some (.choice c none) }
  | none, some f => if value.isSome then .error .unwantedValue else d.flag f
  | none, none => .error .unknown

/-- Flags by their letters. -/
def short (d : Draft) (letters : Text) : Except Stop Draft :=
  letters.foldlM (fun d c =>
    match shortFlags.find? fun r => r.1 == c with
    | none => .error .unknown
    | some (_, f) => d.flag f) d

/-- There is one solution. -/
def positional (d : Draft) (t : Text) : Except Stop Draft :=
  match d.solution, d.pending with
  | some _, _ => .error .unknown
  | none, some (.solution _) => .error .unknown
  | none, _ => do return { (← d.settle) with pending := some (.solution t) }

/-- A value for the option that waits for one, or the solution. -/
def word (d : Draft) (t : Text) : Except Stop Draft :=
  match d.pending with
  | some (.choice c none) => .ok { d with pending := some (.choice c (some t)) }
  | _ => d.positional t

/-- The next argument, where options are still told from the rest. -/
def take (d : Draft) : Text → Except Stop Draft
  | '-' :: '-' :: t => d.long t
  | '-' :: c :: t => d.short (c :: t)
  | t => d.word t

def takeAll (d : Draft) : List Text → Except Stop Draft
  | [] => d.settle
  | t :: ts =>
    if t = ['-', '-'] then do (← ts.foldlM positional d).settle
    else do (← d.take t).takeAll ts

end Draft

def Arguments.parse (args : List Text) : Except Stop Arguments := do
  let d ← Draft.takeAll {} args
  let solution ← Draft.need .noSolution d.solution
  return {
    solution
    pick := d.pick
    output := d.output
    placement := d.placement
    check := d.check
    verbose := d.verbose
    events := d.events
    color := d.color }

end SiteProject.Command
