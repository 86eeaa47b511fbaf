import SiteProject.Console.Style
import SiteProject.Environment
import SiteProject.Settings.Basic

namespace SiteProject.Console

/-- What the terminal can show. -/
structure Terminal where
  color : Bool
  unicode : Bool
  /-- Output of a build service is not shown on a terminal. -/
  service : Bool
  deriving DecidableEq, Repr

namespace Terminal

/-- A build service sets one of these. -/
def serviceVariables : List String :=
  ["CI", "TF_BUILD", "APPVEYOR", "TEAMCITY_VERSION", "JENKINS_HOME", "GITHUB_ACTIONS", "GITLAB_CI",
   "BUILDKITE"]

def localeVariables : List String := ["LC_ALL", "LC_CTYPE", "LANG"]

/-- The first locale that is set and not empty decides. -/
def asciiLocale (env : Environment) : Bool :=
  (localeVariables.findSome? fun name => (env.get? name).filter (· != [])).any fun v =>
    Text.sameLetters v ['C'] || Text.sameLetters v "POSIX".toList

def detect (env : Environment) (interactive : Bool) : Terminal :=
  let dumb := (env.get? "TERM").any (Text.sameLetters "dumb".toList)
  { color := interactive && !dumb && (env.get? "NO_COLOR").isNone
    unicode := !dumb && !asciiLocale env
    service := serviceVariables.any fun name => (env.get? name).isSome }

end Terminal

/-- How a run shows its results: as events or as text, and the look of the text. -/
structure Display where
  events : Bool
  verbose : Bool
  color : Bool
  unicode : Bool
  deriving DecidableEq, Repr

namespace Display

/-- A choice on the command line goes before the settings. Events have no colour. -/
def of (events verbose : Bool) (flag : Option ColorChoice) (setting : ColorChoice) (t : Terminal) :
    Display where
  events
  verbose
  color :=
    !events &&
      match flag.getD setting with
      | .never => false
      | .always => true
      | .auto => t.color && !t.service
  unicode := t.unicode

/-- Colours are written without their numbers where the environment asks for none. -/
def look (d : Display) (env : Environment) : Look where
  coloring :=
    if !d.color then .plain
    else if (env.get? "NO_COLOR").any (· != []) then .unnumbered
    else .numbered
  unicode := d.unicode

end Display
end SiteProject.Console
