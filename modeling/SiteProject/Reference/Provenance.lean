import SiteProject.Text.Basic

namespace SiteProject.Reference

/-- Where the path of a binary comes from. Looking for a binary always gives a path; the provenance says
whether there was a file at it. -/
inductive Provenance
  | siteBin
  | siteBinGuess
  | debugOutput
  | releaseOutput
  | conventionalBin
  | debugBinGuess
  deriving DecidableEq, Repr

namespace Provenance

def label : Provenance → Text
  | siteBin => "website:Bin".toList
  | siteBinGuess => "guess:website Bin".toList
  | debugOutput => "csproj:Debug OutputPath".toList
  | releaseOutput => "csproj:Release OutputPath".toList
  | conventionalBin => "fallback:bin".toList
  | debugBinGuess => "guess:bin\\Debug".toList

/-- No file was found at the path. -/
def isGuess : Provenance → Bool
  | siteBinGuess => true
  | debugBinGuess => true
  | _ => false

end Provenance

/-- Why a hint points at the site's `Bin` folder although binaries are copied. -/
inductive Fallback
  | copyFailed
  | missing
  deriving DecidableEq, Repr

namespace Fallback

/-- What is added to the label of the provenance. -/
def annotation : Fallback → Text
  | copyFailed => " + copyFail->link".toList
  | missing => " + missing->link".toList

end Fallback

/-- The provenance together with the fallback, if there is one. -/
def Provenance.describe (p : Provenance) (fallback : Option Fallback) : Text :=
  p.label ++ (fallback.map Fallback.annotation).getD []

end SiteProject.Reference
