import SiteProject.Text.Blank
import SiteProject.Text.Lines

namespace SiteProject.Solution

/-- The property section that a Web Site's entry carries:

    ProjectSection(WebsiteProperties) = preProject
        TargetFramework = "4.0"
    EndProjectSection

A property is the value of the last well-formed line with its key. -/
structure Properties where
  targetFramework : Option Text := none
  targetFrameworkVersion : Option Text := none
  debugPhysicalPath : Option Text := none
  releasePhysicalPath : Option Text := none
  projectReferences : Option Text := none
  deriving DecidableEq, Repr

namespace Properties

def sectionOpen : Text := "ProjectSection(WebsiteProperties)".toList

def sectionKind : Text := "preProject".toList

def sectionClose : Text := "EndProjectSection".toList

/-- What follows an equals sign with blanks around it. -/
def afterEquals? (s : Text) : Option Text :=
  (Text.after? ['='] (Text.trimStart s)).map Text.trimStart

/-- The body of a section whose opening words end here. -/
def bodyHere? (s : Text) : Option Text := do
  let s ← afterEquals? s
  let s ← Text.after? sectionKind s
  let (body, _) ← Text.cut? sectionClose s
  return body

/-- The body of the first section that is complete. -/
def sectionBody? : Text → Option Text
  | [] => none
  | c :: s => ((Text.after? sectionOpen (c :: s)).bind bodyHere?).or (sectionBody? s)

def isKeyChar (c : Char) : Bool := c.isAlphanum || c == '.' || c == '-' || c == '_'

/-- A line `KEY = "VALUE"`, with blanks anywhere around the key, the sign and the value. -/
def readLine? (line : Text) : Option (Text × Text) := do
  let line := Text.trimStart line
  let key := line.takeWhile isKeyChar
  let s ← afterEquals? (line.dropWhile isKeyChar)
  let s ← Text.after? ['"'] s
  let (value, s) ← Text.cut? ['"'] s
  if key != [] && Text.trim s == [] then some (key, value) else none

def targetFrameworkKey : Text := "TargetFramework".toList

def targetFrameworkVersionKey : Text := "TargetFrameworkVersion".toList

def debugPhysicalPathKey : Text := "Debug.AspNetCompiler.PhysicalPath".toList

def releasePhysicalPathKey : Text := "Release.AspNetCompiler.PhysicalPath".toList

def projectReferencesKey : Text := "ProjectReferences".toList

/-- The value of the last pair with the key. -/
def last? (key : Text) (pairs : List (Text × Text)) : Option Text :=
  (pairs.reverse.find? fun p => p.1 == key).map Prod.snd

def ofPairs (pairs : List (Text × Text)) : Properties where
  targetFramework := last? targetFrameworkKey pairs
  targetFrameworkVersion := last? targetFrameworkVersionKey pairs
  debugPhysicalPath := last? debugPhysicalPathKey pairs
  releasePhysicalPath := last? releasePhysicalPathKey pairs
  projectReferences := last? projectReferencesKey pairs

/-- The properties in an entry's text; none are set where it has no complete section. -/
def ofEntryText (s : Text) : Properties :=
  match sectionBody? s with
  | none => {}
  | some body => ofPairs ((Text.lines body).filterMap readLine?)

def nonEmpty? (t : Option Text) : Option Text := t.filter (· != [])

def framework? (p : Properties) : Option Text :=
  (nonEmpty? p.targetFramework).or (nonEmpty? p.targetFrameworkVersion)

def physicalPath? (p : Properties) : Option Text :=
  (nonEmpty? p.debugPhysicalPath).or (nonEmpty? p.releasePhysicalPath)

end Properties
end SiteProject.Solution
