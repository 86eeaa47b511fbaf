import SiteProject.Xml.Character

namespace SiteProject.Xml

/-- Markup as it is written: elements, with the text of their attributes and contents already escaped. -/
inductive Markup
  | element (name : Text) (attributes : List (Text × Text)) (children : List Markup)
  | empty (name : Text) (attributes : List (Text × Text))
  | chars (written : Text)
  | comment (inner : Text)

namespace Markup

def attributeText (a : Text × Text) : Text := [' '] ++ a.1 ++ ['=', '"'] ++ a.2 ++ ['"']

mutual

def render : Markup → Text
  | element name as cs =>
    ['<'] ++ name ++ as.flatMap attributeText ++ ['>'] ++ renderAll cs ++ ['<', '/'] ++ name ++ ['>']
  | empty name as => ['<'] ++ name ++ as.flatMap attributeText ++ [' ', '/', '>']
  | chars written => written
  | comment inner => "<!-- ".toList ++ inner ++ " -->".toList

def renderAll : List Markup → Text
  | [] => []
  | c :: cs => render c ++ renderAll cs

end

/-- An element with text in it. -/
def leaf (name : String) (written : Text) : Markup := element name.toList [] [chars written]

/-- Markup on lines of its own, indented to a depth; `none` is an empty line. -/
def lines (depth : Nat) : List (Option Markup) → List Markup
  | [] => []
  | none :: ms => chars ['\n'] :: lines depth ms
  | some m :: ms =>
    chars (List.replicate (2 * depth) ' ') :: m :: chars ['\n'] :: lines depth ms

/-- An element at a depth, with its children on lines of their own. -/
def block (depth : Nat) (name : String) (attributes : List (Text × Text))
    (children : List (Option Markup)) : Markup :=
  element name.toList attributes
    (chars ['\n'] :: lines (depth + 1) children ++ [chars (List.replicate (2 * depth) ' ')])

end Markup
end SiteProject.Xml
