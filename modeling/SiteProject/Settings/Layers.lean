import SiteProject.Environment
import SiteProject.Settings.File

namespace SiteProject

namespace Settings

/-- What the environment sets. A value that means nothing sets nothing; a folder is kept as written,
unless it is blank. -/
def ofEnvironment (env : Environment) : Layer where
  output := ((env.get? "SLN2CSPROJ_OUT_DIR").filter fun t => Text.trim t != []).map Path.mk
  placement := (env.get? "SLN2CSPROJ_MODE").bind Placement.parse?
  color := (env.get? "SLN2CSPROJ_COLOR").bind ColorChoice.parse?

/-- The folder of the user's settings: the one that is set, if it is absolute, or the usual one in the
home folder. -/
def userFolder? (env : Environment) : Option Path :=
  let fromHome := ((env.get? "HOME").filter (· != [])).map fun home =>
    (Path.mk home).joinText ".config".toList
  (((env.get? "XDG_CONFIG_HOME").map Path.mk).filter Path.isAbsolute).or fromHome

def userFile? (env : Environment) : Option Path :=
  (userFolder? env).map fun p => (p.joinText "sln2csproj".toList).joinText "config.toml".toList

def projectFile (solutionFolder : Path) : Path := solutionFolder.joinText "sln2csproj.toml".toList

variable {m : Type → Type} [Monad m] [Disk m]

/-- The layer of the user's file, if there is one that can be loaded. -/
def loadUser (env : Environment) : m (Layer × List Warning) := do
  match userFile? env with
  | none => return ({}, [])
  | some file =>
    if !(← Disk.isFile? file) then return ({}, [])
    match ← (load file : ExceptT Failure m (Layer × List Warning)).run with
    | .ok r => return r
    | .error _ => return ({}, [])

/-- The layer of the file in the folder of the solution, if there is one. -/
def loadProject (solutionFolder : Option Path) : ExceptT Failure m (Layer × List Warning) := do
  match solutionFolder.map projectFile with
  | none => return ({}, [])
  | some file =>
    if !(← Disk.isFile? (m := m) file) then return ({}, [])
    load file

/-- All layers over the defaults, and the warnings of the files. -/
def loadAll (env : Environment) (solutionFolder : Option Path) :
    ExceptT Failure m (Settings × List Warning) := do
  let (user, userWarnings) ← loadUser (m := m) env
  let (project, projectWarnings) ← loadProject solutionFolder
  let s := ((Settings.apply {} user).apply project).apply (ofEnvironment env)
  return (s, userWarnings ++ projectWarnings)

end Settings
end SiteProject
