import SiteProject.Path.Basic

namespace SiteProject.Declared

/-- Paths as solution and project files declare them: either slash separates, and what is written back
separates with backslashes. -/
def isSeparator (c : Char) : Bool := c == '/' || c == '\\'

/-- The path of the machine that a declared path means. A leading separator roots it. -/
def toNative (t : Text) : Path :=
  let segments := (Text.split isSeparator t).filter (· != [])
  let rest := Text.join ['/'] segments
  match t with
  | c :: _ => if isSeparator c then ⟨'/' :: rest⟩ else ⟨rest⟩
  | [] => ⟨rest⟩

/-- Written with backslashes; the empty path is a dot. -/
def ofNative (p : Path) : Text :=
  if p.isEmpty then ['.'] else Text.replace '/' '\\' p.text

/-- The declared path that leads from a folder to a target. -/
def relative (folder target : Path) : Text := ofNative (folder.relative target)

def trimSeparators (t : Text) : Text := Text.dropTail isSeparator t

/-- Segments below a folder. The folder is left out when it is empty or a dot. -/
def join (folder : Text) (segments : List Text) : Text :=
  let head := Text.dropTail (· == '\\') (Text.replace '/' '\\' folder)
  if head.isEmpty || head == ['.'] then Text.join ['\\'] segments
  else Text.join ['\\'] (head :: segments)

/-- Rooted, or with a drive letter in front. -/
def isAbsolute : Text → Bool
  | [] => false
  | [c] => isSeparator c
  | c :: d :: _ => isSeparator c || (c.isAlpha && d == ':')

def isUrl (t : Text) : Bool := Text.contains [':', '/', '/'] t

end SiteProject.Declared
