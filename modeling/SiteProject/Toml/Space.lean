import SiteProject.Text.Basic

namespace SiteProject.Toml

/-- The text with each line end written as a line feed. -/
def plainLineEnds : Text → Text
  | [] => []
  | '\r' :: '\n' :: s => '\n' :: plainLineEnds s
  | c :: s => c :: plainLineEnds s

def isSpace (c : Char) : Bool := c == ' ' || c == '\t'

def skipSpace (s : Text) : Text := s.dropWhile isSpace

/-- Stands as it is in comments and strings: a tab, and what is no ASCII control character. -/
def isPlain (c : Char) : Bool := c == '\t' || (0x20 ≤ c.toNat && c.toNat != 0x7F)

/-- What follows a line feed. -/
def afterLine? : Text → Option Text
  | '\n' :: s => some s
  | _ => none

def skipComment : Text → Text
  | '#' :: s => s.dropWhile isPlain
  | s => s

/-- The next line, when no more than space and a comment is left of this one. -/
def endLine? (s : Text) : Option Text :=
  match skipComment (skipSpace s) with
  | [] => some []
  | s => afterLine? s

/-- Passes over space, comments and lines. -/
def skipLines (inComment : Bool) : Text → Text
  | [] => []
  | c :: s =>
    if c = '\n' then skipLines false s
    else if inComment then
      if isPlain c then skipLines true s else c :: s
    else if c = '#' then skipLines true s
    else if isSpace c then skipLines false s
    else c :: s

end SiteProject.Toml
