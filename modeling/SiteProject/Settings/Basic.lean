import SiteProject.Conversion.Basic

namespace SiteProject

inductive ColorChoice
  | auto
  | always
  | never
  deriving DecidableEq, Repr

namespace ColorChoice

def name : ColorChoice → Text
  | auto => "auto".toList
  | always => "always".toList
  | never => "never".toList

def ofName? (t : Text) : Option ColorChoice := [auto, always, never].find? fun c => c.name == t

/-- Blanks around the name and the case of ASCII letters do not matter. -/
def parse? (t : Text) : Option ColorChoice := ofName? (Text.lower (Text.trim t))

end ColorChoice

/-- The output folder, the placement of binaries and the choice of colour. -/
structure Settings where
  output : Path := defaultOutput
  placement : Placement := .copy
  color : ColorChoice := .auto
  deriving DecidableEq, Repr

namespace Settings

/-- What one file, or the environment, sets. -/
structure Layer where
  output : Option Path := none
  placement : Option Placement := none
  color : Option ColorChoice := none
  deriving DecidableEq, Repr

/-- A layer on top: it decides where it sets something. -/
def apply (s : Settings) (l : Layer) : Settings where
  output := l.output.getD s.output
  placement := l.placement.getD s.placement
  color := l.color.getD s.color

end Settings
end SiteProject
