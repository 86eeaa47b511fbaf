import SiteProject.Text.Basic

namespace SiteProject.Text

/-- A line ends at a line feed, together with one carriage return right before it. Text after the
last line feed is a line if it is not empty; a carriage return on its own ends no line. -/
def lines : Text → List Text
  | [] => []
  | '\n' :: s => [] :: lines s
  | '\r' :: '\n' :: s => [] :: lines s
  | c :: s =>
    match lines s with
    | [] => [[c]]
    | l :: ls => (c :: l) :: ls

inductive LineEnding
  | lf
  | crlf
  deriving DecidableEq, Repr

def LineEnding.text : LineEnding → Text
  | .lf => ['\n']
  | .crlf => ['\r', '\n']

/-- A text that has the ending `crlf` anywhere is taken to use it throughout. -/
def LineEnding.of (s : Text) : LineEnding :=
  if contains LineEnding.crlf.text s then .crlf else .lf

end SiteProject.Text
