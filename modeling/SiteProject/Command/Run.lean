import SiteProject.Command.Arguments
import SiteProject.Console.Event
import SiteProject.Console.Terminal
import SiteProject.Console.View
import SiteProject.Settings.Layers

namespace SiteProject.Command

open Console (Display Event Look Terminal)

structure Outcome where
  output : Text := []
  errors : Text := []
  status : Nat := 0
  deriving DecidableEq, Repr

/-- One outcome after another; the status is the second one's. -/
def Outcome.append (a b : Outcome) : Outcome :=
  ⟨a.output ++ b.output, a.errors ++ b.errors, b.status⟩

/-- What a run finds around it. `interactive` tells that its output goes to a terminal. -/
structure Context where
  environment : Environment
  workingFolder : Path
  interactive : Bool
  deriving DecidableEq, Repr

namespace Context

def terminal (c : Context) : Terminal := Terminal.detect c.environment c.interactive

def display (c : Context) (a : Arguments) (s : Settings) : Display :=
  Display.of a.events a.verbose a.color s.color c.terminal

/-- The folder whose settings apply: the one that the solution's path lies in. -/
def settingsFolder (c : Context) (solution : Path) : Path :=
  match solution.parent? with
  | none => c.workingFolder
  | some p => if p.isEmpty then c.workingFolder else c.workingFolder.join p

end Context

def eventLines (es : List Event) : Outcome := { output := es.flatMap Event.line }

/-- A failure is told as an event, or on the error output with its advice. -/
def failed (c : Context) (events : Bool) (f : Failure) : Outcome :=
  if events then { eventLines [Event.error f.message] with status := 1 }
  else
    let t := c.terminal
    let look := Display.look ⟨events, false, t.color, t.unicode⟩ c.environment
    { errors := Console.errorBlock look f.message f.advice?, status := 1 }

def warned (d : Display) (look : Look) (ws : List Settings.Warning) : Outcome :=
  if d.events then eventLines (ws.map Event.unknownKey)
  else { errors := ws.flatMap fun w => (Console.unknownKey w).render look }

/-- The dependencies whose library has a project file that cannot be read. -/
def unreadable (d : Display) (look : Look) (deps : List Conversion.Dependency) : Outcome :=
  let found := deps.filterMap fun dep => dep.unreadable?.map (dep, ·)
  if d.events then eventLines (found.map fun p => Event.unreadableProject p.1 p.2)
  else { errors := found.flatMap fun p => (Console.unreadableProject p.1 p.2).render look }

def options (a : Arguments) (s : Settings) : Conversion.Options where
  solution := a.solution
  pick := a.pick.getD 1
  output := a.output.getD s.output
  placement := a.placement.getD s.placement

def converted (d : Display) (look : Look) (r : Conversion.Report) : Outcome :=
  (unreadable d look r.dependencies).append
    (if d.events then eventLines (Event.ofReport r)
      else { output := Console.Report.render look d.verbose r })

/-- A check has its own status where the user has to pick a site. -/
def checked (d : Display) (look : Look) (i : Conversion.Inspection) : Outcome :=
  let shown :=
    if d.events then eventLines (Event.ofCheck i.sites)
    else { output := Console.Check.render look i.solution i.sites i.libraries.length }
  { shown with status := if 1 < i.sites.length then 2 else 0 }

variable {m : Type → Type} [Monad m] [Disk m]

/-- The command itself, with settings. -/
def perform (c : Context) (a : Arguments) (s : Settings) : ExceptT Failure m Outcome := do
  let d := c.display a s
  let look := d.look c.environment
  if a.check then return checked d look (← Conversion.inspect c.workingFolder a.solution)
  return converted d look (← Conversion.execute c.workingFolder (options a s))

def run (c : Context) (a : Arguments) : m Outcome := do
  let loaded : ExceptT Failure m (Settings × List Settings.Warning) :=
    Settings.loadAll c.environment (some (c.settingsFolder a.solution))
  match ← loaded.run with
  | .error f => return failed c a.events f
  | .ok (s, ws) =>
    let d := c.display a s
    let before := warned d (d.look c.environment) ws
    match ← (perform c a s : ExceptT Failure m Outcome).run with
    | .error f => return before.append (failed c a.events f)
    | .ok o => return before.append o

def usage : Text := "Usage: sln2csproj [OPTIONS] <SLN>\n".toList

def versionLine : Text := "sln2csproj 0.3.1\n".toList

def helpText : Text :=
  "Generates an IntelliSense-only C# project for a legacy ASP.NET Web Site solution.\n\n".toList ++
    usage ++
    ("\nOptions:\n" ++
      "      --pick <N>       Which Web Site to convert, counted from 1\n" ++
      "      --out-dir <DIR>  Output root, relative to the solution directory unless absolute\n" ++
      "      --mode <MODE>    How referenced binaries are placed: copy, link\n" ++
      "      --check          List the Web Sites and exit without writing\n" ++
      "  -v, --verbose        Print where every referenced binary was found\n" ++
      "      --json           One JSON object a line\n" ++
      "      --color <WHEN>   When to use colors: auto, always, never\n" ++
      "  -h, --help           Print help\n" ++
      "  -V, --version        Print version\n").toList

def Stop.message : Stop → Text
  | .help => helpText
  | .version => versionLine
  | .noSolution => "error: no solution is given\n\n".toList ++ usage
  | .unknown => "error: unexpected argument\n\n".toList ++ usage
  | .badValue => "error: an option has no valid value\n\n".toList ++ usage
  | .badNumber => "error: the position is no number\n\n".toList ++ usage
  | .repeated => "error: an option is given twice\n\n".toList ++ usage
  | .unwantedValue => "error: a flag takes no value\n\n".toList ++ usage

/-- Help and version are what was asked for. -/
def Stop.outcome (s : Stop) : Outcome :=
  match s with
  | .help => { output := s.message }
  | .version => { output := s.message }
  | _ => { errors := s.message, status := 2 }

end SiteProject.Command
