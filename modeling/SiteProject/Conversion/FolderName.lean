import SiteProject.Text.Basic

namespace SiteProject.Conversion

def isReserved (c : Char) : Bool :=
  c == '<' || c == '>' || c == ':' || c == '"' || c == '/' || c == '\\' || c == '|' || c == '?' ||
    c == '*'

/-- Each run of reserved characters becomes one underscore; `inRun` tells that the characters before
are such a run. -/
def underscored (inRun : Bool) : Text → Text
  | [] => []
  | c :: s =>
    if isReserved c then
      if inRun then underscored true s else '_' :: underscored true s
    else c :: underscored false s

/-- The name of a site as the name of a folder: one plain name, without separators and other characters that
some file systems refuse, and not made of dots only. -/
def folderName (name : Text) : Text :=
  if name.all (· == '.') then ['_'] else underscored false name

end SiteProject.Conversion
