import SiteProject.Command.Run

namespace SiteProject.Machine

def name (p : Path) : String := String.ofList p.text

def causeOf (e : IO.Error) : Cause :=
  match e with
  | .noFileOrDirectory _ _ _ => .notFound
  | .permissionDenied _ _ _ => .denied
  | .alreadyExists _ _ _ => .exists
  | .inappropriateType _ code _ => if code = 20 then .notFolder else .isFolder
  | e => .other (toString e).toList

/-- An action on a path, whose failure names the path. -/
def onPath {α : Type} (p : Path) (act : IO α) : ExceptT DiskFailure IO α := do
  match ← act.toBaseIO with
  | .ok a => return a
  | .error e => throw ⟨p, causeOf e⟩

def metadata (p : Path) : IO IO.FS.Metadata := do (← IO.FS.realPath (name p)).metadata

def succeeds {α : Type} (act : IO α) (test : α → Bool) : IO Bool := do
  match ← act.toBaseIO with
  | .ok a => return test a
  | .error _ => return false

def isFile (d : IO.FS.Metadata) : Bool :=
  match d.type with
  | .file => true
  | _ => false

def readText (p : Path) : ExceptT DiskFailure IO Text := do
  let bytes ← onPath p (IO.FS.readBinFile (name p))
  match Text.Utf8.decode? bytes.toList with
  | some t => return t
  | none => throw ⟨p, .notText⟩

/-- The text is complete before it takes the place of the file. -/
def writeText (p : Path) (t : Text) : ExceptT DiskFailure IO Unit := do
  onPath p.enclosing (IO.FS.createDirAll (name p.enclosing))
  let draft := name p ++ ".tmp"
  onPath p do
    IO.FS.writeBinFile draft (String.ofList t).toUTF8
    try IO.FS.rename draft (name p)
    catch e =>
      IO.FS.removeFile draft
      throw e

def copyFile (source target : Path) : ExceptT DiskFailure IO Unit := do
  if !(isFile (← onPath target (metadata source))) then throw ⟨target, .notAFile⟩
  onPath target do IO.FS.writeBinFile (name target) (← IO.FS.readBinFile (name source))

instance : Disk IO where
  exists? p := succeeds (metadata p) fun _ => true
  isFile? p := succeeds (metadata p) isFile
  readText := readText
  writeText := writeText
  makeFolders p := onPath p (IO.FS.createDirAll (name p))
  copyFile := copyFile

/-- The variables that a run looks at. -/
def variableNames : List String :=
  ["HOME", "XDG_CONFIG_HOME", "SLN2CSPROJ_OUT_DIR", "SLN2CSPROJ_MODE", "SLN2CSPROJ_COLOR", "TERM",
   "NO_COLOR"] ++ Console.Terminal.serviceVariables ++ Console.Terminal.localeVariables

def environment : IO Environment := do
  let found ← variableNames.mapM fun v => do return (← IO.getEnv v).map fun t => (v.toList, t.toList)
  return found.filterMap id

def report (o : Command.Outcome) : IO UInt32 := do
  IO.eprint (String.ofList o.errors)
  IO.print (String.ofList o.output)
  return UInt32.ofNat o.status

def run (args : List Text) : IO UInt32 := do
  match Command.Arguments.parse args with
  | .error stop => report stop.outcome
  | .ok arguments =>
    let context : Command.Context :=
      { environment := ← environment
        workingFolder := Path.ofString (toString (← IO.currentDir))
        interactive := ← (← IO.getStdout).isTty }
    report (← Command.run context arguments)

end SiteProject.Machine

def main (args : List String) : IO UInt32 := SiteProject.Machine.run (args.map String.toList)
