import SiteProject.Disk.Basic
import SiteProject.Library.Metadata
import SiteProject.Reference.Provenance
import SiteProject.Solution.Project

namespace SiteProject.Reference

open Solution (Site Reference)

/-- What became of the project file of the library that a reference names. -/
inductive ProjectFile
  | noLibrary
  | missing
  | unreadable (reason : Text)
  | read
  deriving DecidableEq, Repr

/-- `library` is the declared path of the library's project file. -/
structure Resolution where
  library : Option Text
  resolved : Path
  provenance : Provenance
  projectFile : ProjectFile
  deriving DecidableEq, Repr

/-- The folder of a site in a solution that lies in the folder given first. -/
def siteFolder (folder : Path) (s : Site) : Path :=
  (folder.join (Declared.toNative s.physicalPath)).normalize

def projectPath (folder : Path) (l : Solution.Library) : Path :=
  (folder.join (Declared.toNative l.path)).normalize

def binary (folder : Path) (segments : List String) (dll : Text) : Path :=
  (segments.foldl (fun p s => p.joinText s.toList) folder).joinText dll

/-- The places of a build's output: under the name that is referred to, and under the assembly's own. -/
def outputCandidates (folder : Path) (dll : Text) (info : Library.Metadata) (b : Library.Build)
    (p : Provenance) : List (Path × Provenance) :=
  match info.output b with
  | none => []
  | some out =>
    let target := (folder.join (Declared.toNative out)).normalize
    [(target.joinText dll, p), (target.joinText (info.assemblyFile.getD dll), p)]

/-- All places where a library's binary is looked for, in order. -/
def candidates (folder : Path) (dll : Text) (info : Library.Metadata) : List (Path × Provenance) :=
  outputCandidates folder dll info .debug .debugOutput ++
    outputCandidates folder dll info .release .releaseOutput ++
    [(binary folder ["bin", "Debug"] dll, .conventionalBin),
     (binary folder ["bin", "Release"] dll, .conventionalBin),
     (binary folder ["bin"] dll, .conventionalBin)]

/-- The library that a reference names; GUIDs are compared up to letter case. -/
def library? (ls : List Solution.Library) (r : Reference) : Option Solution.Library :=
  ls.find? fun l => Text.sameLetters l.guid r.targetGuid

variable {m : Type → Type} [Monad m] [Disk m]

/-- The first candidate that exists, else the last resort. -/
def firstExisting (lastResort : Path × Provenance) : List (Path × Provenance) →
    m (Path × Provenance)
  | [] => pure lastResort
  | c :: cs => do
    if ← Disk.exists? c.1 then return c
    firstExisting lastResort cs

/-- Why a project file whose text is not well-formed cannot be used. -/
def malformed : Text := "<xml error>".toList

/-- What a library's project file says; nothing where it cannot be read. -/
def readProject (file : Path) : m (Library.Metadata × ProjectFile) := do
  if !(← Disk.exists? file) then return ({}, .missing)
  match ← (Disk.readText file : ExceptT DiskFailure m Text).run with
  | .error f => return ({}, .unreadable f.message)
  | .ok text =>
    match Library.Metadata.parse? text with
    | none => return ({}, .unreadable malformed)
    | some info => return (info, .read)

def resolveInSite (siteFolder : Path) (r : Reference) : m Resolution := do
  let bin := binary siteFolder ["Bin"] r.dll
  let (resolved, provenance) ← firstExisting (bin, .siteBinGuess) [(bin, .siteBin)]
  return { library := none, resolved, provenance, projectFile := .noLibrary }

def resolveInLibrary (folder : Path) (l : Solution.Library) (r : Reference) : m Resolution := do
  let file := projectPath folder l
  let libraryFolder := file.parent?.getD folder
  let (info, projectFile) ← readProject file
  let guess := binary libraryFolder ["bin", "Debug"] r.dll
  let (resolved, provenance) ←
    firstExisting (guess, .debugBinGuess) (candidates libraryFolder r.dll info)
  return { library := some l.path, resolved, provenance, projectFile }

def resolve (folder siteFolder : Path) (ls : List Solution.Library) (r : Reference) :
    m Resolution :=
  match library? ls r with
  | none => resolveInSite siteFolder r
  | some l => resolveInLibrary folder l r

/-- One resolution for each reference, in their order. -/
def resolveAll (folder siteFolder : Path) (ls : List Solution.Library) :
    List Reference → m (List Resolution)
  | [] => return []
  | r :: rs => do
    let first ← resolve folder siteFolder ls r
    let rest ← resolveAll folder siteFolder ls rs
    return first :: rest

end SiteProject.Reference
