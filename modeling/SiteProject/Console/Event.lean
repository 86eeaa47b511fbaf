import SiteProject.Settings.File

namespace SiteProject.Console

open Conversion (Report Dependency)

namespace Json

/-- Digits of base sixteen, in lower case. -/
def hexDigit (n : Nat) : Char := Nat.digitChar n

/-- Quotes, backslashes and control characters are escaped; some of them have short forms. -/
def escapeChar (c : Char) : Text :=
  if c = '"' then ['\\', '"']
  else if c = '\\' then ['\\', '\\']
  else if c = '\n' then ['\\', 'n']
  else if c = '\r' then ['\\', 'r']
  else if c = '\t' then ['\\', 't']
  else if c = '\x08' then ['\\', 'b']
  else if c = '\x0C' then ['\\', 'f']
  else if c.toNat < 0x20 then
    ['\\', 'u', '0', '0', hexDigit (c.toNat / 16), hexDigit (c.toNat % 16)]
  else [c]

def quoted (t : Text) : Text := ['"'] ++ t.flatMap escapeChar ++ ['"']

end Json

/-- The value of a member. -/
inductive Member
  | text (t : Text)
  | count (n : Nat)
  | flag (b : Bool)
  deriving DecidableEq, Repr

def Member.render : Member → Text
  | text t => Json.quoted t
  | count n => Text.ofNat n
  | flag b => if b then "true".toList else "false".toList

/-- An event by its members. The first one names its kind. -/
structure Event where
  kind : String
  members : List (String × Option Member)
  deriving DecidableEq, Repr

namespace Event

def written (e : Event) : List (String × Member) :=
  ("event", .text e.kind.toList) :: e.members.filterMap fun m => m.2.map (m.1, ·)

def line (e : Event) : Text :=
  ['\x7b'] ++ Text.join [','] (e.written.map fun m => Json.quoted m.1.toList ++ ':' :: m.2.render) ++
    ['\x7d', '\n']

def text (t : Text) : Option Member := some (.text t)

def count (n : Nat) : Option Member := some (.count n)

/-- A site at its position. -/
def site (index : Nat) (s : Solution.Site) : Event where
  kind := "website"
  members :=
    [("index", count index), ("name", text s.name), ("guid", text s.guid),
     ("physical_path", text s.physicalPath), ("framework", text s.framework),
     ("references", count s.references.length)]

def dependency (d : Dependency) : Event where
  kind := "dependency"
  members :=
    [("dll", text d.reference.dll), ("guid", text d.reference.targetGuid),
     ("from", text d.origin), ("resolved", text d.resolution.resolved.text),
     ("hint", text d.hint), ("guessed", some (.flag d.isGuess))]

def converted (r : Report) : Event where
  kind := "complete"
  members :=
    [("command", text "convert".toList), ("success", some (.flag true)),
     ("website", text r.site.name), ("descriptor", text r.descriptor.text),
     ("manifest", text r.rerooted.text), ("mode", text r.placement.name),
     ("references", count r.dependencies.length)]

/-- A check succeeds unless the user has to pick a site. -/
def checked (siteCount : Nat) : Event where
  kind := "complete"
  members :=
    [("command", text "check".toList), ("success", some (.flag (siteCount ≤ 1))),
     ("websites", count siteCount)]

def warning (message : Text) : Event where
  kind := "warning"
  members := [("message", text message)]

def unknownKey (w : Settings.Warning) : Event where
  kind := "warning"
  members :=
    [("message", text ("unknown config key '".toList ++ w.key ++ ['\x27'] ++
        (w.suggestion.map fun s => " (did you mean '".toList ++ s ++ "'?)".toList).getD [])),
     ("file", text w.file.text), ("line", w.line.map .count)]

/-- The project file of a library that is there but cannot be read. -/
def unreadableProject (d : Dependency) (reason : Text) : Event :=
  warning ("could not read ".toList ++ d.resolution.library.getD ['?'] ++ [':', ' '] ++ reason)

def error (message : Text) : Event where
  kind := "error"
  members := [("message", text message)]

/-- The sites of a check from a position on. -/
def sites : Nat → List Solution.Site → List Event
  | _, [] => []
  | n, s :: ss => site n s :: sites (n + 1) ss

/-- All that is told of a conversion. -/
def ofReport (r : Report) : List Event :=
  site r.picked r.site :: r.dependencies.map dependency ++ [converted r]

def ofCheck (ss : List Solution.Site) : List Event := sites 1 ss ++ [checked ss.length]

end Event
end SiteProject.Console
