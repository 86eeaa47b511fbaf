import SiteProject.Conversion.FolderName
import SiteProject.Descriptor
import SiteProject.Failure
import SiteProject.Reference.Placement
import SiteProject.Reference.Resolution
import SiteProject.Solution.Reroot

namespace SiteProject

/-- The output folder, from the folder of the solution, where nothing else is set. -/
def defaultOutput : Path := ⟨"tools/_intellisense".toList⟩

namespace Conversion

structure Options where
  solution : Path
  /-- The position of the site, counted from one. -/
  pick : Nat := 1
  output : Path := defaultOutput
  placement : Placement := .copy
  deriving DecidableEq, Repr

/-- The index of the site among `count` sites; a position outside is brought to the nearest one. -/
def pickIndex (pick count : Nat) : Nat := min (max pick 1) count - 1

/-- A solution that has been read. `folder` is the folder that it lies in. -/
structure Inspection where
  solution : Path
  folder : Path
  content : Text
  sites : List Solution.Site
  libraries : List Solution.Library
  deriving DecidableEq, Repr

/-- How one binary ended up in the generated project. -/
structure Dependency where
  reference : Solution.Reference
  resolution : Reference.Resolution
  hint : Text
  fallback : Option Reference.Fallback
  deriving DecidableEq, Repr

namespace Dependency

def origin (d : Dependency) : Text := d.resolution.provenance.describe d.fallback

def isGuess (d : Dependency) : Bool := d.resolution.provenance.isGuess

/-- Why the project file of the library could not be read. -/
def unreadable? (d : Dependency) : Option Text :=
  match d.resolution.projectFile with
  | .unreadable reason => some reason
  | _ => none

end Dependency

/-- What a conversion did. `picked` is the position of the site, counted from one. -/
structure Report where
  solution : Path
  site : Solution.Site
  picked : Nat
  siteCount : Nat
  folder : Path
  descriptor : Path
  rerooted : Path
  placement : Placement
  dependencies : List Dependency
  deriving DecidableEq, Repr

namespace Report

def fallbackCount (r : Report) : Nat := r.dependencies.countP (·.fallback.isSome)

def guessCount (r : Report) : Nat := r.dependencies.countP Dependency.isGuess

end Report

/-- The folder of a site's project, below the output folder. -/
def projectFolder (solutionFolder output : Path) (siteName : Text) : Path :=
  ((solutionFolder.join output).joinText (folderName siteName)).normalize

def descriptorPath (folder : Path) (siteName : Text) : Path :=
  folder.joinText (folderName siteName ++ ".intellisense.csproj".toList)

def rerootedPath (folder : Path) (siteName : Text) : Path :=
  folder.joinText ("fake_".toList ++ folderName siteName ++ ".sln".toList)

/-- A path from the working folder, with its steps up taken. -/
def absolute (workingFolder p : Path) : Path :=
  if p.isAbsolute then p.normalize else (workingFolder.join p).normalize

/-- Each reference with its resolution, and with the hint that the project has for its binary. -/
def dependencies (rs : List Solution.Reference) (resolutions : List Reference.Resolution)
    (placed : List Reference.Placed) : List Dependency :=
  let hints := Reference.Hints.ofPlaced placed
  ((rs.zip resolutions).zip placed).map fun ((reference, resolution), p) =>
    { reference, resolution, hint := (hints.get? reference.dll).getD [], fallback := p.fallback }

variable {m : Type → Type} [Monad m] [Disk m]

/-- A disk operation, whose failure ends the run. -/
def onDisk {α : Type} (act : ExceptT DiskFailure m α) : ExceptT Failure m α := act.adapt Failure.disk

def inspect (workingFolder solution : Path) : ExceptT Failure m Inspection := do
  let solution := absolute workingFolder solution
  if !(← Disk.exists? (m := m) solution) then throw (.solutionNotFound solution)
  let content ← onDisk (Disk.readText solution)
  let entries := Solution.entries content
  let sites := Solution.sites entries
  if sites.isEmpty then throw (.noSites solution)
  return {
    solution
    folder := solution.parent?.getD ⟨['.']⟩
    content
    sites
    libraries := Solution.libraries entries }

/-- The conversion of the site at an index. Nothing is written before the binaries are placed, and the copy
of the solution comes last. -/
def convertSite (i : Inspection) (o : Options) (index : Nat) (site : Solution.Site) :
    ExceptT Failure m Report := do
  let siteFolder := Reference.siteFolder i.folder site
  let resolutions ← Reference.resolveAll (m := m) i.folder siteFolder i.libraries site.references
  let folder := projectFolder i.folder o.output site.name
  let siteFromFolder := Declared.relative folder siteFolder
  onDisk (Disk.makeFolders folder)
  let placed ← onDisk (Reference.placeAll o.placement folder siteFromFolder
    (site.references.zip (resolutions.map (·.resolved))))
  let descriptor := descriptorPath folder site.name
  let hints := Reference.Hints.ofPlaced placed
  onDisk (Disk.writeText descriptor (Descriptor.text site siteFromFolder hints))
  let rerooted := rerootedPath folder site.name
  let move : Solution.Move :=
    { source := i.folder, target := folder, siteGuid := site.guid, descriptor }
  onDisk (Disk.writeText rerooted (move.text i.content))
  return {
    solution := i.solution
    site
    picked := index + 1
    siteCount := i.sites.length
    folder
    descriptor
    rerooted
    placement := o.placement
    dependencies := dependencies site.references resolutions placed }

/-- The conversion of the picked site. -/
def convert (i : Inspection) (o : Options) : ExceptT Failure m Report :=
  let index := pickIndex o.pick i.sites.length
  match i.sites[index]? with
  | none => throw (.noSites i.solution)
  | some site => convertSite i o index site

def execute (workingFolder : Path) (o : Options) : ExceptT Failure m Report := do
  convert (← inspect workingFolder o.solution) o

end Conversion
end SiteProject
