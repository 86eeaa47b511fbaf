import SiteProject.Disk.Basic
import SiteProject.Path.Declared
import SiteProject.Reference.Hints
import SiteProject.Reference.Provenance
import SiteProject.Solution.References
import SiteProject.Text.Blank
import SiteProject.Text.Case

namespace SiteProject

/-- How the generated project gets at the binaries: they are copied beside the project, or left where they are. -/
inductive Placement
  | copy
  | link
  deriving DecidableEq, Repr

namespace Placement

def name : Placement → Text
  | copy => "copy".toList
  | link => "link".toList

def ofName? (t : Text) : Option Placement := [copy, link].find? fun p => p.name == t

/-- Blanks around the name and the case of its letters do not matter. -/
def parse? (t : Text) : Option Placement := ofName? (Text.lowerToLatin (Text.trim t))

end Placement

namespace Reference

open Solution (Reference)

/-- The folder of the copies in the folder of the project. -/
def copiesFolder (folder : Path) : Path := folder.joinText "refs".toList

/-- The hint of one reference. -/
structure Placed where
  dll : Text
  hint : Text
  fallback : Option Fallback := none
  deriving DecidableEq, Repr

def Hints.ofPlaced (ps : List Placed) : Hints := ps.foldl (fun h p => h.insert p.dll p.hint) {}

variable {m : Type → Type} [Monad m] [Disk m]

/-- A copy that fails does not stop the others. -/
def placeCopy (folder : Path) (siteFolder : Text) (r : Reference) (resolved : Path) : m Placed := do
  let inBin (why : Fallback) : Placed := ⟨r.dll, binHint siteFolder r.dll, some why⟩
  if !(← Disk.exists? resolved) then return inBin .missing
  let target := (copiesFolder folder).joinText r.dll
  match ← (Disk.copyFile resolved target : ExceptT DiskFailure m Unit).run with
  | .ok () => return ⟨r.dll, Declared.relative folder target, none⟩
  | .error _ => return inBin .copyFailed

def placeLink (folder : Path) (siteFolder : Text) (r : Reference) (resolved : Path) : m Placed := do
  if ← Disk.exists? resolved then return ⟨r.dll, Declared.relative folder resolved, none⟩
  return ⟨r.dll, binHint siteFolder r.dll, none⟩

def placeEach (act : Reference → Path → m Placed) : List (Reference × Path) → m (List Placed)
  | [] => return []
  | r :: rs => do
    let first ← act r.1 r.2
    let rest ← placeEach act rs
    return first :: rest

/-- The hints of references with the paths they resolved to. `folder` is the folder of the project and
`siteFolder` leads from it to the site. Only making the folder of the copies can fail. -/
def placeAll (mode : Placement) (folder : Path) (siteFolder : Text)
    (rs : List (Reference × Path)) : ExceptT DiskFailure m (List Placed) :=
  match mode with
  | .link => placeEach (m := m) (placeLink folder siteFolder) rs
  | .copy => do
    Disk.makeFolders (copiesFolder folder)
    placeEach (m := m) (placeCopy folder siteFolder) rs

end Reference
end SiteProject
