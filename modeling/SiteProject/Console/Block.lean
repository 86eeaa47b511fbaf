import SiteProject.Console.Style
import SiteProject.Text.Utf8

namespace SiteProject.Console

/-- A command's title, and labelled facts in a column below it. -/
structure Header where
  icon : Icon
  title : Text
  facts : List (Text × Text)
  deriving DecidableEq, Repr

namespace Header

/-- The column is wide enough for the longest label, by its bytes, and a colon. -/
def width (h : Header) : Nat := (h.facts.map fun f => Text.Utf8.size f.1).foldl max 0 + 1

def padded (width : Nat) (t : Text) : Text := t ++ List.replicate (width - t.length) ' '

def fact (l : Look) (width : Nat) (f : Text × Text) : Text :=
  line [[' ', ' '], Span.render l ⟨padded width (f.1 ++ [':']), .dim, false⟩, [' '], orDash f.2]

def render (l : Look) (h : Header) : Text :=
  line [h.icon.render l, [' '], Span.render l ⟨h.title, .info, true⟩] ++
    h.facts.flatMap (fact l h.width)

end Header

/-- A warning with lines below its title. -/
structure WarningBlock where
  title : Text
  lines : List Text
  deriving DecidableEq, Repr

def WarningBlock.render (l : Look) (w : WarningBlock) : Text :=
  line [Icon.render l .warning, [' '], Span.render l ⟨w.title, .warning, false⟩] ++
    w.lines.flatMap fun t => line ["    ".toList, t]

/-- An error, and what can be done about it. -/
def errorBlock (l : Look) (message : Text) (advice : Option Text) : Text :=
  line [Icon.render l .error, [' '], Span.render l ⟨message, .error, false⟩] ++
    (advice.map fun t => line [[' ', ' '], Span.render l ⟨t, .dim, false⟩]).getD []

end SiteProject.Console
