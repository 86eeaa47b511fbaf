import SiteProject.Disk.Basic
import SiteProject.Text.Utf8

namespace SiteProject

inductive Node
  | folder
  | file (bytes : List UInt8)
  deriving DecidableEq, Repr

/-- The names on the way from the root. -/
abbrev Location := List Text

/-- All nodes but the root, which is a folder. -/
structure Tree where
  nodes : List (Location × Node) := []
  workingFolder : Location := []
  deriving DecidableEq, Repr

namespace Tree

def node? (t : Tree) (l : Location) : Option Node :=
  if l = [] then some .folder else (t.nodes.find? fun n => n.1 == l).map Prod.snd

def putInto (l : Location) (n : Node) : List (Location × Node) → List (Location × Node)
  | [] => [(l, n)]
  | m :: ms => if m.1 = l then (l, n) :: ms else m :: putInto l n ms

def put (t : Tree) (l : Location) (n : Node) : Tree := { t with nodes := putInto l n t.nodes }

/-- The longest name that a node can have, and the longest path, in bytes. -/
def longestName : Nat := 255

def longestPath : Nat := 4095

/-- Follows segments from a node. -/
def walk (t : Tree) : Location → List Text → Except Cause (Location × Node)
  | l, [] =>
    match t.node? l with
    | none => .error .notFound
    | some n => .ok (l, n)
  | l, w :: ws =>
    match t.node? l with
    | none => .error .notFound
    | some (.file _) => .error .notFolder
    | some .folder =>
      if w = [] ∨ w = ['.'] then walk t l ws
      else if w = ['.', '.'] then walk t l.dropLast ws
      else if longestName < Text.Utf8.size w then .error .nameTooLong
      else walk t (l ++ [w]) ws

/-- Where a path starts, and its segments. -/
def segments (t : Tree) (p : Path) : Except Cause (Location × List Text) :=
  if p.text.any (· == '\x00') then .error .nulInName
  else if p.isEmpty then .error .notFound
  else if longestPath < Text.Utf8.size p.text then .error .nameTooLong
  else .ok (if p.isAbsolute then [] else t.workingFolder, Text.split (· == '/') p.text)

def find (t : Tree) (p : Path) : Except Cause (Location × Node) := do
  let (start, ws) ← t.segments p
  t.walk start ws

/-- What a path ends with: a name in the folder that the rest leads to, perhaps with a separator
after it, or a step that names nothing. -/
inductive Target
  | name (location : Location) (closed : Bool)
  | step

/-- The end of a path; the rest of it must lead to a folder. -/
def target (t : Tree) (p : Path) : Except Cause Target := do
  let (start, ws) ← t.segments p
  match ws.reverse.dropWhile (· == []) with
  | [] => return .step
  | w :: before =>
    match ← t.walk start before.reverse with
    | (_, .file _) => throw .notFolder
    | (l, .folder) =>
      if w = ['.'] ∨ w = ['.', '.'] then return .step
      if longestName < Text.Utf8.size w then throw .nameTooLong
      return .name (l ++ [w]) (ws.getLast? == some [])

def exists? (t : Tree) (p : Path) : Bool := (t.find p).isOk

def isFile? (t : Tree) (p : Path) : Bool :=
  match t.find p with
  | .ok (_, .file _) => true
  | _ => false

def isFolder? (t : Tree) (p : Path) : Bool :=
  match t.find p with
  | .ok (_, .folder) => true
  | _ => false

def readBytes (t : Tree) (p : Path) : Except Cause (List UInt8) := do
  match ← t.find p with
  | (_, .file bytes) => return bytes
  | (_, .folder) => throw .isFolder

def readText (t : Tree) (p : Path) : Except Cause Text := do
  match Text.Utf8.decode? (← t.readBytes p) with
  | some s => return s
  | none => throw .notText

/-- A new folder in a folder that is there. -/
def makeFolder (t : Tree) (p : Path) : Except Cause Tree := do
  match ← t.target p with
  | .step => throw .exists
  | .name l _ => if (t.node? l).isSome then throw .exists else return t.put l .folder

/-- The path and those of the folders that it lies in, as far as it spells them. -/
def ancestors : Nat → Path → List Path
  | 0, _ => []
  | n + 1, p => p :: (p.parent?.map (ancestors n)).getD []

/-- Makes the first of the paths, and before it the others where they are missing. What has been made
before a failure stays. -/
def makeFirst (t : Tree) : List Path → Except Cause Unit × Tree
  | [] => (.error .notFound, t)
  | p :: ps =>
    if p.isEmpty then (.ok (), t)
    else
      match t.makeFolder p with
      | .ok t => (.ok (), t)
      | .error .notFound =>
        match makeFirst t ps with
        | (.error c, t) => (.error c, t)
        | (.ok (), t) =>
          match t.makeFolder p with
          | .ok t => (.ok (), t)
          | .error c => (if t.isFolder? p then .ok () else .error c, t)
      | .error c => (if t.isFolder? p then .ok () else .error c, t)

def makeFolders (t : Tree) (p : Path) : Except Cause Unit × Tree :=
  t.makeFirst (ancestors (p.text.length + 1) p)

/-- Puts a finished file at a path; the folder has to be there. -/
def replaceFile (t : Tree) (p : Path) (bytes : List UInt8) : Except Cause Tree := do
  match ← t.target p with
  | .step => throw .busy
  | .name l closed =>
    if closed then throw .notFolder
    if t.node? l = some .folder then throw .isFolder
    return t.put l (.file bytes)

/-- Opens a file for new content, and makes it if it is missing. -/
def emptyFile (t : Tree) (p : Path) : Except Cause (Location × Tree) := do
  match ← t.target p with
  | .step => throw .isFolder
  | .name l closed =>
    if closed ∨ t.node? l = some .folder then throw .isFolder
    return (l, t.put l (.file []))

/-- Copies what is in the source once the target has been emptied, so a file copied onto itself is empty
afterwards. -/
def copyFile (t : Tree) (source target : Path) : Except Cause Tree := do
  match ← t.find source with
  | (_, .folder) => throw .notAFile
  | (l, .file _) =>
    let (l', t) ← t.emptyFile target
    return t.put l' ((t.node? l).getD (.file []))

/-- Makes the folder of the file, and writes the file. -/
def writeText (t : Tree) (p : Path) (s : Text) : Except DiskFailure Unit × Tree :=
  let folder := p.enclosing
  match t.makeFolders folder with
  | (.error c, t) => (.error ⟨folder, c⟩, t)
  | (.ok (), t) =>
    match t.replaceFile p (Text.Utf8.encode s) with
    | .error c => (.error ⟨p, c⟩, t)
    | .ok t => (.ok (), t)

/-- The failure of an operation names the path it was for; it changes nothing. -/
def attempt {α : Type} (p : Path) (t : Tree) (r : Except Cause α) : Except DiskFailure α × Tree :=
  (r.mapError (DiskFailure.mk p), t)

instance : Disk (StateM Tree) where
  exists? p := fun t => (t.exists? p, t)
  isFile? p := fun t => (t.isFile? p, t)
  readText p := fun t => attempt p t (t.readText p)
  writeText p s := fun t => t.writeText p s
  makeFolders p := fun t =>
    let (r, t) := t.makeFolders p
    attempt p t r
  copyFile source target := fun t =>
    match t.copyFile source target with
    | .error c => attempt target t (.error c)
    | .ok t => (.ok (), t)

/-- The node at a location, with the folders that it lies in; whatever stood there is replaced. -/
def plant (t : Tree) (l : Location) (n : Node) : Tree :=
  let t := (List.range l.length).foldl (fun t i =>
    if i = 0 ∨ (t.node? (l.take i)).isSome then t else t.put (l.take i) .folder) t
  if l = [] then t else t.put l n

/-- The nodes below a folder, by their paths from it, in the order of the paths. -/
def below (t : Tree) (folder : Location) : List (Text × Node) :=
  let inside := t.nodes.filterMap fun n =>
    if folder.isPrefixOf n.1 ∧ n.1 ≠ folder then
      some (Text.join ['/'] (n.1.drop folder.length), n.2)
    else none
  inside.mergeSort fun a b => Text.le a.1 b.1

/-- The nodes below a folder that are new or have other content. -/
def changesSince (before after : Tree) (folder : Location) : List (Text × Node) :=
  (after.below folder).filter fun n => !(before.below folder).contains n

end Tree
end SiteProject
