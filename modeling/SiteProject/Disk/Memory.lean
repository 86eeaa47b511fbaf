import SiteProject.Disk.Basic

namespace SiteProject

inductive Operation
  | read
  | write
  | makeFolders
  | copy
  deriving DecidableEq, Repr

structure Fault where
  operation : Operation
  path : Path
  cause : Cause
  deriving DecidableEq, Repr

/-- A disk as a value: texts and folders by path, and faults. Paths are the same when their parts are; a step up
is a part like any other. A fault makes every use of an operation on its path fail. -/
structure MemoryDisk where
  files : List (Path × Text) := []
  folders : List Path := []
  faults : List Fault := []
  deriving DecidableEq, Repr

namespace MemoryDisk

def file? (d : MemoryDisk) (p : Path) : Option Text :=
  (d.files.find? fun f => f.1.same p).map Prod.snd

def hasFolder (d : MemoryDisk) (p : Path) : Bool := d.folders.any (·.same p)

def hasFile (d : MemoryDisk) (p : Path) : Bool := (d.file? p).isSome

/-- A path exists when a file or a folder is at it or below it. -/
def hasPath (d : MemoryDisk) (p : Path) : Bool :=
  d.files.any (fun f => p.holds f.1) || d.folders.any p.holds

/-- The text under the path that is the same, whose spelling stays, or under the new path. -/
def putInto (p : Path) (t : Text) : List (Path × Text) → List (Path × Text)
  | [] => [(p, t)]
  | f :: fs => if f.1.same p then (f.1, t) :: fs else f :: putInto p t fs

def put (d : MemoryDisk) (p : Path) (t : Text) : MemoryDisk :=
  { d with files := putInto p t d.files }

def remove (d : MemoryDisk) (p : Path) : MemoryDisk :=
  { d with files := d.files.filter fun f => !f.1.same p }

def addFolder (d : MemoryDisk) (p : Path) : MemoryDisk :=
  if d.hasFolder p then d else { d with folders := d.folders ++ [p] }

def fault? (d : MemoryDisk) (o : Operation) (p : Path) : Option Cause :=
  (d.faults.find? fun f => f.operation = o && f.path.same p).map Fault.cause

/-- What an operation answers, and the disk after it. -/
abbrev Outcome (α : Type) := Except DiskFailure α × MemoryDisk

/-- An operation, unless a fault stops it. -/
def guarded {α : Type} (d : MemoryDisk) (o : Operation) (p : Path) (act : Outcome α) : Outcome α :=
  match d.fault? o p with
  | some c => (.error ⟨p, c⟩, d)
  | none => act

def isADirectory : Cause := .other "is a directory".toList

def notAFile : Cause := .other "not a file".toList

def readText (d : MemoryDisk) (p : Path) : Outcome Text :=
  d.guarded .read p <|
    match d.file? p with
    | some t => (.ok t, d)
    | none => (.error ⟨p, if d.hasPath p then isADirectory else .notFound⟩, d)

def writeText (d : MemoryDisk) (p : Path) (t : Text) : Outcome Unit :=
  d.guarded .write p (.ok (), d.put p t)

/-- Only the folder itself is added; the folders it lies in exist by holding it. -/
def makeFolders (d : MemoryDisk) (p : Path) : Outcome Unit :=
  d.guarded .makeFolders p (.ok (), d.addFolder p)

def copyFile (d : MemoryDisk) (source target : Path) : Outcome Unit :=
  d.guarded .copy target <|
    match d.file? source with
    | some t => (.ok (), d.put target t)
    | none => (.error ⟨target, notAFile⟩, d)

instance : Disk (StateM MemoryDisk) where
  exists? p := fun d => (d.hasPath p, d)
  isFile? p := fun d => (d.hasFile p, d)
  readText p := fun d => d.readText p
  writeText p t := fun d => d.writeText p t
  makeFolders p := fun d => d.makeFolders p
  copyFile source target := fun d => d.copyFile source target

/-- The files that are new or have another text, and the new folders in the order of their parts. -/
structure Changes where
  files : List (Path × Text)
  folders : List Path
  deriving DecidableEq, Repr

def changesSince (before after : MemoryDisk) : Changes where
  files := after.files.filter fun f => before.file? f.1 != some f.2
  folders := (after.folders.filter fun p => !before.hasFolder p).mergeSort Path.le

end MemoryDisk
end SiteProject
