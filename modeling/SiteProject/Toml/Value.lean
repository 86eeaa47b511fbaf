import SiteProject.Text.Basic

namespace SiteProject.Toml

/-- How a table came to be: written in braces, opened by a header, on the way to what a header opens,
or on the way that a dotted key goes. -/
inductive Origin
  | braces
  | header
  | implied
  | dotted
  deriving DecidableEq, Repr

/-- Numbers, truth values and times are kept as kinds only. `tables` are the tables that headers in
double brackets open, of which only the last can grow. -/
inductive Value
  | string (t : Text)
  | number
  | truth
  | time
  | array (vs : List Value)
  | table (origin : Origin) (entries : List (Text × Value))
  | tables (ts : List (List (Text × Value)))

/-- The entries of a table in their order; no two have one key. -/
abbrev Entries := List (Text × Value)

namespace Entries

def get? (es : Entries) (k : Text) : Option Value := (es.find? fun e => e.1 == k).map Prod.snd

/-- The entries with the value under a key changed, or with a new entry at the end. -/
def alter (k : Text) (f : Option Value → Option Value) : Entries → Option Entries
  | [] => (f none).map fun v => [(k, v)]
  | e :: es =>
    if e.1 = k then (f (some e.2)).map fun v => (k, v) :: es
    else (alter k f es).map (e :: ·)

/-- A new entry; a key is set once. -/
def add (k : Text) (v : Value) : Entries → Option Entries :=
  alter k fun old => if old.isSome then none else some v

/-- Changes the table that a path leads to, told how that table came to be. Tables that are missing on
the way are made. What is written in braces is closed, and a dotted key does not go through a table
that has a header. -/
def changeAt (origin : Origin) (f : Origin → Entries → Option Entries) :
    Origin → List Text → Entries → Option Entries
  | own, [], es => f own es
  | _, k :: ks, es =>
    alter k (fun old =>
      match old with
      | none => (changeAt origin f origin ks []).map (.table origin)
      | some (.table o sub) =>
        if o = .braces ∨ (origin = .dotted ∧ o = .header) then none
        else (changeAt origin f o ks sub).map (.table o)
      | some (.tables ts) =>
        match ts.reverse with
        | [] => none
        | t :: before => (changeAt origin f .header ks t).map fun t => .tables (before.reverse ++ [t])
      | some _ => none) es

/-- Sets a value under a dotted key. The last table on its way must be one of dotted keys. -/
def set (key : List Text) (v : Value) (es : Entries) : Option Entries := do
  let last ← key.getLast?
  let way := key.dropLast
  changeAt .dotted (fun own es => if way = [] ∨ own = .dotted then add last v es else none)
    .header way es

/-- Opens a table. One that was only on the way to another may be opened later, and then counts as
written there. -/
def openTable (k : Text) (es : Entries) : Option Entries :=
  match get? es k with
  | none => some (es ++ [(k, .table .header [])])
  | some (.table .implied sub) => some (es.filter (fun e => e.1 != k) ++ [(k, .table .header sub)])
  | some _ => none

/-- Adds an empty table to the tables under a key. -/
def openElement (k : Text) : Entries → Option Entries :=
  alter k fun old =>
    match old with
    | none => some (.tables [[]])
    | some (.tables ts) => some (.tables (ts ++ [[]]))
    | some _ => none

/-- Applies one of these to the table that holds the last part of a header. -/
def openAt (act : Text → Entries → Option Entries) (header : List Text) (es : Entries) :
    Option Entries := do
  let last ← header.getLast?
  changeAt .implied (fun _ es => act last es) .header header.dropLast es

/-- Sets a value under a dotted key of the table that a header has opened. -/
def setAt (header key : List Text) (v : Value) (es : Entries) : Option Entries :=
  changeAt .implied (fun _ es => set key v es) .header header es

end Entries
end SiteProject.Toml
