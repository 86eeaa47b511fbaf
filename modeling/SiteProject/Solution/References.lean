import SiteProject.Text.Blank
import SiteProject.Text.Case

namespace SiteProject.Solution

/-- A reference of a Web Site, as a pair `{GUID}|Name.dll`. A segment that is no pair is left out, and the
others are read as if it were not there. -/
structure Reference where
  targetGuid : Text
  dll : Text
  deriving DecidableEq, Repr

namespace Reference

def isBrace (c : Char) : Bool := c == '\x7b' || c == '\x7d'

def ofSegment? (s : Text) : Option Reference :=
  match Text.split (· == '|') (Text.trim s) with
  | [guid, dll] =>
    some { targetGuid := Text.trim (guid.filter fun c => !isBrace c), dll := Text.trim dll }
  | _ => none

def listOf (value : Text) : List Reference :=
  (Text.split (· == ';') value).filterMap ofSegment?

def listOfOption (value : Option Text) : List Reference :=
  (value.map listOf).getD []

def text (r : Reference) : Text := ['\x7b'] ++ r.targetGuid ++ ['\x7d', '|'] ++ r.dll ++ [';']

def dllExtension : Text := ".dll".toList

/-- The name without a final `.dll`, in any case. -/
def assemblyName (r : Reference) : Text :=
  let cut := r.dll.length - dllExtension.length
  if Text.sameLetters (r.dll.drop cut) dllExtension then r.dll.take cut else r.dll

end Reference
end SiteProject.Solution
