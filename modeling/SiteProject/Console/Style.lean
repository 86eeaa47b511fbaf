import SiteProject.Reference.Provenance
import SiteProject.Text.Lines

namespace SiteProject.Console

inductive Tone
  | success
  | error
  | warning
  | info
  | dim
  deriving DecidableEq, Repr

/-- The number of the colour in the palette of 256. -/
def Tone.color : Tone → Nat
  | success => 10
  | error => 9
  | warning => 11
  | info => 14
  | dim => 8

/-- Which escapes are written. `unnumbered` leaves the numbers of the colours out. -/
inductive Coloring
  | plain
  | numbered
  | unnumbered
  deriving DecidableEq, Repr

/-- How output is shown. -/
structure Look where
  coloring : Coloring := .plain
  unicode : Bool := false
  deriving DecidableEq, Repr

def sequence (code : Text) : Text := '\x1b' :: '[' :: (code ++ ['m'])

/-- A span of text in a tone. -/
structure Span where
  text : Text
  tone : Tone
  bold : Bool := false
  deriving DecidableEq, Repr

namespace Span

def foreground (c : Coloring) (code : Text) : Text := sequence (if c = .numbered then code else [])

/-- Bold ends with everything that is set, and a colour alone with the colour. -/
def render (l : Look) (s : Span) : Text :=
  if l.coloring = .plain then s.text
  else
    let start := foreground l.coloring ("38;5;".toList ++ Text.ofNat s.tone.color)
    if s.bold then start ++ sequence ['1'] ++ s.text ++ sequence ['0']
    else start ++ s.text ++ foreground l.coloring ['3', '9']

end Span

inductive Icon
  | success
  | error
  | warning
  | guess
  | convert
  | check
  deriving DecidableEq, Repr

namespace Icon

def glyph (unicode : Bool) : Icon → Text
  | success => if unicode then ['✓'] else "[OK]".toList
  | error => if unicode then ['✗'] else "[FAIL]".toList
  | warning => if unicode then ['⚠'] else "[WARN]".toList
  | guess => if unicode then ['?'] else "[??]".toList
  | convert => if unicode then ['📦'] else "[CONVERT]".toList
  | check => if unicode then ['🔍'] else "[CHECK]".toList

def tone : Icon → Tone
  | success => .success
  | error => .error
  | warning => .warning
  | guess => .warning
  | convert => .info
  | check => .info

def render (l : Look) (i : Icon) : Text := Span.render l ⟨i.glyph l.unicode, i.tone, false⟩

end Icon

/-- The parts of a line, with the line feed. -/
def line (parts : List Text) : Text := parts.flatten ++ ['\n']

/-- A dash for what is empty. -/
def orDash (t : Text) : Text := if t.isEmpty then ['-'] else t

end SiteProject.Console
