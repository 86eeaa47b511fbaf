import SiteProject.Text.Case
import SiteProject.Xml.Token

namespace SiteProject.Xml

/-- A document as a tree. Adjacent character data is one text; comments and processing instructions stay in the
tree, because they keep the texts around them apart. -/
inductive Node
  | element (name : Name) (attributes : List Attribute) (children : List Node)
  | text (t : Text)
  | aside

/-- The declared name spaces, the nearest first; `none` is the default. -/
abbrev Scope := List (Option Text × Text)

namespace Scope

def xmlSpace : Text := "http://www.w3.org/XML/1998/namespace".toList

def xmlnsSpace : Text := "http://www.w3.org/2000/xmlns/".toList

def xml : Text := "xml".toList

def xmlns : Text := "xmlns".toList

def uri? (scope : Scope) (qualifier : Option Text) : Option Text :=
  (scope.find? fun d => d.1 == qualifier).map Prod.snd

/-- The declarations among an element's attributes, after those already found, and the attributes
that declare nothing. A name space is declared once, except for the default. -/
def declare? (found : Scope) : List Attribute → Option (Scope × List Attribute)
  | [] => some (found, [])
  | a :: as =>
    if a.name.qualifier == xmlns then
      if a.value == xmlnsSpace || (a.name.localName == xml) != (a.value == xmlSpace) ||
          (uri? found (some a.name.localName)).isSome then none
      else if a.value == xmlSpace then declare? found as
      else declare? (found ++ [(some a.name.localName, a.value)]) as
    else if a.name.localName == xmlns then
      if a.value == xmlSpace || a.value == xmlnsSpace then none
      else declare? (found ++ [(none, a.value)]) as
    else (declare? found as).map fun p => (p.1, a :: p.2)

/-- The name space and the local name of an attribute. An attribute without a qualifier is in no
name space. -/
def expand? (scope : Scope) (n : Name) : Option (Option Text × Text) :=
  if n.qualifier == xml then some (some xmlSpace, n.localName)
  else if n.qualifier == [] then some (none, n.localName)
  else (uri? scope (some n.qualifier)).map fun u => (some u, n.localName)

def noRepeats {α : Type} [BEq α] : List α → Bool
  | [] => true
  | a :: as => !as.contains a && noRepeats as

/-- What holds inside an element, and the element's attributes; nothing where a qualifier is not
declared or two attributes have one name. -/
def enter? (outer : Scope) (name : Name) (attributes : List Attribute) :
    Option (Scope × List Attribute) :=
  if name.qualifier == xmlns then none
  else do
    let (own, attributes) ← declare? [] attributes
    let scope := own ++ outer.filter fun d => (uri? own d.1).isNone
    let names ← attributes.mapM fun a => expand? scope a.name
    if noRepeats names && (name.qualifier == [] || (uri? scope (some name.qualifier)).isSome) then
      some (scope, attributes)
    else none

end Scope

/-- An element that is still open. The last of its children comes first. -/
structure Frame where
  name : Name
  attributes : List Attribute
  scope : Scope
  children : List Node

namespace Frame

def add (f : Frame) (n : Node) : Frame :=
  match n, f.children with
  | .text t, .text s :: cs => { f with children := .text (s ++ t) :: cs }
  | _, _ => { f with children := n :: f.children }

def close (f : Frame) : Node := .element f.name f.attributes f.children.reverse

end Frame

/-- A document that is being read: some elements are open, the innermost first, or its root is
complete. -/
inductive Progress
  | inside (frame : Frame) (outer : List Frame)
  | complete (root : Node)

namespace Progress

def finish (n : Node) : List Frame → Progress
  | [] => complete n
  | f :: fs => inside (f.add n) fs

def openTag? (outer : List Frame) (name : Name) (attributes : List Attribute) (closed : Bool) :
    Option Progress := do
  let scope := (outer.head?.map Frame.scope).getD []
  let (scope, attributes) ← Scope.enter? scope name attributes
  let frame : Frame := { name, attributes, scope, children := [] }
  return if closed then finish frame.close outer else inside frame outer

def step? (frame : Frame) (outer : List Frame) : Token → Option Progress
  | .opening name attributes closed => openTag? (frame :: outer) name attributes closed
  | .closing name => if name = frame.name then some (finish frame.close outer) else none
  | .chars t => some (inside (frame.add (.text t)) outer)
  | .aside => some (inside (frame.add .aside) outer)

/-- Reads tokens until the root is complete. -/
def run? (p : Progress) (s : Text) : Option (Node × Text) :=
  match p with
  | complete root => some (root, s)
  | inside frame outer =>
    match _h : Token.read? s with
    | none => none
    | some (t, r) =>
      match step? frame outer t with
      | none => none
      | some p => run? p r
termination_by s.length
decreasing_by exact Token.length_lt_of_read? _h

end Progress

/-- What follows the declaration at the start of a document. -/
def declaration? (s : Text) : Option Text := do
  let s ← gap? s
  let s ← if Text.startsWith "version".toList s then field? s >>= gap? else none
  let s ← if Text.startsWith "encoding".toList s then field? s >>= gap? else some s
  let s ← if Text.startsWith "standalone".toList s then field? s else some s
  Text.after? ['?', '>'] (skipSpace s)
where
  field? (s : Text) : Option Text := (rawAttribute? s).map Prod.snd
  gap? (s : Text) : Option Text :=
    if s.head?.any isSpace then some (skipSpace s)
    else if Text.startsWith ['?', '>'] s || s.isEmpty then some s
    else none

/-- What follows the space, comments and processing instructions around the root. -/
def skipAsides? (s : Text) : Option Text :=
  match Text.after? "<!--".toList (skipSpace s), Text.after? "<?".toList (skipSpace s) with
  | none, none => some (skipSpace s)
  | _, _ =>
    match _h : Token.read? (skipSpace s) with
    | some (_, r) => skipAsides? r
    | none => none
termination_by s.length
decreasing_by
  have l₁ := Token.length_lt_of_read? _h
  have l₂ := length_dropWhile_le isSpace s
  simp only [skipSpace] at l₁
  omega

/-- The root element of a document. -/
def parse? (s : Text) : Option Node := do
  let s ← if Text.startsWith "<?xml ".toList s then declaration? (s.drop 5) else some s
  let s ← skipAsides? s
  let s ← Text.after? ['<'] s
  let ((name, attributes, closed), s) ← Token.opening? s
  let p ← Progress.openTag? [] name attributes closed
  let (root, s) ← p.run? s
  let s ← skipAsides? s
  if s.isEmpty then some root else none

namespace Node

/-- The text that an element starts with. -/
def leadText? : Node → Option Text
  | element _ _ (text t :: _) => some t
  | _ => none

def isElement (name : Text) : Node → Bool
  | element n _ _ => Text.sameLetters n.localName name
  | _ => false

def children : Node → List Node
  | element _ _ cs => cs
  | _ => []

/-- The value of the first attribute with the name, in any case of its letters. -/
def attribute? (name : Text) : Node → Option Text
  | element _ as _ =>
    (as.find? fun a => Text.sameLetters a.name.localName name).map (·.value)
  | _ => none

mutual

/-- A node and all below it, in the order of the document. -/
def descendants : Node → List Node
  | element n as cs => element n as cs :: descendantsOf cs
  | text t => [text t]
  | aside => [aside]

def descendantsOf : List Node → List Node
  | [] => []
  | c :: cs => descendants c ++ descendantsOf cs

end

end Node
end SiteProject.Xml
