import SiteProject.Disk.Basic
import SiteProject.Settings.Basic
import SiteProject.Settings.Suggestion
import SiteProject.Text.Lines
import SiteProject.Toml.Document

namespace SiteProject.Settings

/-- A key that means nothing. -/
structure Warning where
  key : Text
  file : Path
  line : Option Nat
  suggestion : Option Text
  deriving DecidableEq, Repr

/-- What a file sets, and the keys that mean nothing, each with the sections it is in. -/
structure Reading where
  layer : Layer := {}
  unknown : List Text := []
  deriving DecidableEq, Repr

open Toml (Value Entries)

/-- The key under which a time, used as a section, holds its text. -/
def timeKey : Text := "$__toml_private_datetime".toList

/-- The entries of a section. Values in brackets are those of the section's keys in order, and those
beyond them are passed over. -/
def entriesOf? (keys : List Text) : Value → Option Entries
  | .table _ es => some es
  | .array vs => some (keys.zip vs)
  | .tables ts => some (keys.zip (ts.map (Value.table .header)))
  | .time => some [(timeKey, .time)]
  | _ => none

def text? : Value → Option Text
  | .string t => some t
  | _ => none

def isEmpty : Value → Bool
  | .table _ es => es.isEmpty
  | .array vs => vs.isEmpty
  | _ => false

/-- A name as a string, or as the only key of a table whose value there is empty. -/
def word? : Value → Option Text
  | .string t => some t
  | .table _ [(k, v)] => if isEmpty v then some k else none
  | _ => none

/-- Takes in one entry of a section; a key that means nothing is kept with the section's name. -/
abbrev Take := Reading → Text → Value → Option Reading

def Reading.warn (r : Reading) (key : Text) : Reading := { r with unknown := r.unknown ++ [key] }

def outputKey : Text := "out_dir".toList

def modeKey : Text := "mode".toList

def colorKey : Text := "color".toList

def convertSection : Text := "convert".toList

def outputSection : Text := "output".toList

def takeConvert : Take := fun r k v =>
  if k = outputKey then do
    return { r with layer := { r.layer with output := some ⟨← text? v⟩ } }
  else if k = modeKey then do
    let p ← Placement.ofName? (← word? v)
    return { r with layer := { r.layer with placement := some p } }
  else some (r.warn (convertSection ++ '.' :: k))

def takeOutput : Take := fun r k v =>
  if k = colorKey then do
    let c ← ColorChoice.ofName? (← word? v)
    return { r with layer := { r.layer with color := some c } }
  else some (r.warn (outputSection ++ '.' :: k))

def takeEntries (take : Take) (r : Reading) (es : Entries) : Option Reading :=
  es.foldlM (fun r e => take r e.1 e.2) r

def takeRoot : Take := fun r k v =>
  if k = convertSection then do
    takeEntries takeConvert r (← entriesOf? [outputKey, modeKey] v)
  else if k = outputSection then do
    takeEntries takeOutput r (← entriesOf? [colorKey] v)
  else some (r.warn k)

/-- What a document says, where it is valid and its values are of the right kinds. -/
def read? (content : Text) : Option Reading := do
  takeEntries takeRoot {} (← Toml.parse? content)

/-- The number of the first line that has the text, counted from one. -/
def lineOf? (t content : Text) : Option Nat :=
  ((Text.lines content).findIdx? (Text.contains t)).map (· + 1)

/-- The last part of a key, without the sections it is in. -/
def lastPart (key : Text) : Text := (Text.split (· == '.') key).getLastD []

def warning (file : Path) (content : Text) (key : Text) : Warning :=
  let part := lastPart key
  { key := part, file, line := lineOf? part content, suggestion := suggest? part }

variable {m : Type → Type} [Monad m] [Disk m]

/-- The layer of a file, and the warnings in the order of the keys. -/
def load (file : Path) : ExceptT Failure m (Layer × List Warning) := do
  let content ← (Disk.readText file : ExceptT DiskFailure m Text).adapt fun f => .other f.cause
  match read? content with
  | none => throw (.badSettings file "<toml error>".toList)
  | some r => return (r.layer, r.unknown.map (warning file content))

end SiteProject.Settings
