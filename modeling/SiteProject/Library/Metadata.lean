import SiteProject.Text.Blank
import SiteProject.Xml.Tree

namespace SiteProject.Library

inductive Build
  | debug
  | release
  deriving DecidableEq, Repr

/-- What the condition of the build's property group mentions. -/
def Build.marker : Build → Text
  | debug => "debug|anycpu".toList
  | release => "release|anycpu".toList

/-- What a library's project file says about its build: the name of the assembly, and the output folder of the
debug and the release build. Element and attribute names are compared without regard to case. -/
structure Metadata where
  assemblyName : Option Text := none
  debugOutput : Option Text := none
  releaseOutput : Option Text := none
  deriving DecidableEq, Repr

namespace Metadata

/-- A node's text without the blanks around it, where that is not empty. -/
def content? (n : Xml.Node) : Option Text :=
  (n.leadText?.map Text.trim).filter (· != [])

def isGroupOf (b : Build) (n : Xml.Node) : Bool :=
  n.isElement "PropertyGroup".toList &&
    (n.attribute? "Condition".toList).any fun c => Text.contains b.marker (Text.lower c)

def outputOf (group : Xml.Node) : Option Text :=
  (group.children.filter (·.isElement "OutputPath".toList)).findSome? content?

def ofRoot (root : Xml.Node) : Metadata :=
  let nodes := root.descendants
  let output (b : Build) : Option Text := (nodes.filter (isGroupOf b)).findSome? outputOf
  { assemblyName := (nodes.filter (·.isElement "AssemblyName".toList)).findSome? content?
    debugOutput := output .debug
    releaseOutput := output .release }

/-- Nothing where the text is not well-formed. Byte-order marks in front are passed over. -/
def parse? (s : Text) : Option Metadata :=
  (Xml.parse? (s.dropWhile (· == '\uFEFF'))).map ofRoot

def output (m : Metadata) : Build → Option Text
  | .debug => m.debugOutput
  | .release => m.releaseOutput

def assemblyFile (m : Metadata) : Option Text := m.assemblyName.map (· ++ ".dll".toList)

end Metadata
end SiteProject.Library
