import SiteProject.Toml.Number
import SiteProject.Toml.Time
import SiteProject.Toml.Value

namespace SiteProject.Toml

/-- One more than the nesting depth and the number of parts of a key that readers accept. -/
def nestingLimit : Nat := 80

def isBareKeyChar (c : Char) : Bool := c.isAlphanum || c == '_' || c == '-'

/-- One part of a key, and what follows it. -/
def keyPart? (s : Text) : Option (Text × Text) :=
  match s.takeWhile isBareKeyChar with
  | [] => Quoted.line? s
  | word => some (word, s.dropWhile isBareKeyChar)

/-- The parts of a key with points between them, at most so many, and what follows them. -/
def key? : Nat → Text → Option (List Text × Text)
  | 0, _ => none
  | budget + 1, s => do
    let (part, s) ← keyPart? (skipSpace s)
    match skipSpace s with
    | '.' :: s => do
      let (parts, s) ← key? budget s
      return (part :: parts, s)
    | s => return ([part], s)

/-- A key, an equals sign and a value, and what follows them. -/
def pair? (value? : Text → Option (Value × Text)) (s : Text) :
    Option ((List Text × Value) × Text) := do
  let (key, s) ← key? (nestingLimit - 1) s
  let s ← Text.after? ['='] s
  let (v, s) ← value? (skipSpace s)
  return ((key, v), s)

/-- The elements of an array after its bracket; `fuel` bounds their number. -/
def elements? (value? : Text → Option (Value × Text)) : Nat → Text → Option (List Value × Text)
  | 0, _ => none
  | fuel + 1, s =>
    match skipLines false s with
    | ']' :: s => some ([], s)
    | s => do
      let (v, s) ← value? s
      match skipLines false s with
      | ',' :: s => do
        let (vs, s) ← elements? value? fuel s
        return (v :: vs, s)
      | ']' :: s => return ([v], s)
      | _ => none

/-- The pairs of a table in braces, at least one; `fuel` bounds their number. -/
def pairs? (value? : Text → Option (Value × Text)) :
    Nat → Text → Option (List (List Text × Value) × Text)
  | 0, _ => none
  | fuel + 1, s => do
    let (p, s) ← pair? value? s
    match skipSpace s with
    | ',' :: s => do
      let (ps, s) ← pairs? value? fuel s
      return (p :: ps, s)
    | '\x7d' :: s => return ([p], s)
    | _ => none

/-- The entries that pairs make when they are set one after the other. -/
def entriesOf? (ps : List (List Text × Value)) : Option Entries :=
  ps.foldlM (fun es p => Entries.set p.1 p.2 es) []

/-- A table in braces after the brace, and what follows it. -/
def braces? (value? : Text → Option (Value × Text)) (s : Text) : Option (Value × Text) :=
  match skipSpace s with
  | '\x7d' :: s => some (.table .braces [], s)
  | s => do
    let (ps, s) ← pairs? value? s.length s
    return (.table .braces (← entriesOf? ps), s)

/-- A value that holds no other, and what follows it. -/
def simpleValue? (s : Text) : Option (Value × Text) :=
  ((Quoted.read? s).map fun p => (.string p.1, p.2)).or <|
  (((Text.after? ['t', 'r', 'u', 'e'] s).or (Text.after? ['f', 'a', 'l', 's', 'e'] s)).map
    fun s => (.truth, s)).or <|
  ((Time.read? s).map fun s => (.time, s)).or <|
  ((float? s).or (integer? s)).map fun s => (.number, s)

/-- A value with at most so many levels of arrays and braces, and what follows it. -/
def value? : Nat → Text → Option (Value × Text)
  | 0, s => simpleValue? s
  | depth + 1, s =>
    match s with
    | '[' :: s => (elements? (value? depth) s.length s).map fun p => (.array p.1, p.2)
    | '\x7b' :: s => braces? (value? depth) s
    | s => simpleValue? s

inductive Statement
  | pair (key : List Text) (v : Value)
  | table (header : List Text)
  | element (header : List Text)

/-- A statement at the start of a line, and what follows the line that it ends on. -/
def statement? (s : Text) : Option (Statement × Text) :=
  match s with
  | '[' :: '[' :: s => do
    let (header, s) ← key? (nestingLimit - 1) s
    let s ← endLine? (← Text.after? [']', ']'] s)
    return (.element header, s)
  | '[' :: s => do
    let (header, s) ← key? (nestingLimit - 1) s
    let s ← endLine? (← Text.after? [']'] s)
    return (.table header, s)
  | s => do
    let ((key, v), s) ← pair? (value? (nestingLimit - 1)) s
    return (.pair key v, ← endLine? s)

/-- The statements of a text; `fuel` bounds their number. -/
def statements? : Nat → Text → Option (List Statement)
  | 0, s => if skipLines false s = [] then some [] else none
  | fuel + 1, s =>
    match skipLines false s with
    | [] => some []
    | s => do
      let (st, s) ← statement? s
      return st :: (← statements? fuel s)

/-- The document so far, and the header that statements now belong to. -/
structure Draft where
  entries : Entries := []
  header : List Text := []

def Draft.add? (d : Draft) : Statement → Option Draft
  | .pair key v => do return { d with entries := ← Entries.setAt d.header key v d.entries }
  | .table header => do
    return { entries := ← Entries.openAt Entries.openTable header d.entries, header }
  | .element header => do
    return { entries := ← Entries.openAt Entries.openElement header d.entries, header }

def withoutMark : Text → Text
  | '\uFEFF' :: s => s
  | s => s

/-- The entries of a document, where it is valid. One byte-order mark may stand in front. -/
def parse? (s : Text) : Option Entries := do
  let s := plainLineEnds (withoutMark s)
  let sts ← statements? s.length s
  let d ← sts.foldlM Draft.add? {}
  return d.entries

end SiteProject.Toml
