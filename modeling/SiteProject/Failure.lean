import SiteProject.Disk.Basic

namespace SiteProject

/-- What ends a run. A binary that is not found does not. -/
inductive Failure
  | solutionNotFound (solution : Path)
  | noSites (solution : Path)
  | badSettings (file : Path) (reason : Text)
  | disk (f : DiskFailure)
  /-- A failure outside the disk operations, which names no path. -/
  | other (c : Cause)
  deriving DecidableEq, Repr

namespace Failure

def message : Failure → Text
  | solutionNotFound p => "solution file not found: ".toList ++ p.text
  | noSites p =>
    "no Website project found in ".toList ++ p.text ++ " (is this a Web Site solution?)".toList
  | badSettings file reason =>
    "invalid configuration in ".toList ++ file.text ++ ": ".toList ++ reason
  | disk f => f.message
  | other c => "IO error: ".toList ++ c.message

/-- What the user can do about it. -/
def advice? : Failure → Option Text
  | solutionNotFound _ => some "Check the path to the .sln file.".toList
  | noSites _ =>
    some "Only Web Site solutions (project type E24C65DC-...) can be converted.".toList
  | badSettings _ _ => some "Fix the TOML syntax and try again.".toList
  | disk _ => none
  | other _ => none

end Failure
end SiteProject
