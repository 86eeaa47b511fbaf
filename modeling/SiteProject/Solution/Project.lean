import SiteProject.Path.Declared
import SiteProject.Solution.Framework
import SiteProject.Solution.Layout
import SiteProject.Solution.Properties
import SiteProject.Solution.References

namespace SiteProject.Solution

/-- A Web Site is a folder; it has no project file of its own. -/
structure Site where
  name : Text
  guid : Text
  physicalPath : Text
  framework : Text
  references : List Reference
  deriving DecidableEq, Repr

structure Library where
  guid : Text
  name : Text
  path : Text
  deriving DecidableEq, Repr

/-- The folder is the one the compiler was told of, else the entry's path. -/
def Site.ofEntry (e : Entry) : Site :=
  let props := Properties.ofEntryText e.text
  { name := e.header.name
    guid := e.header.guid
    physicalPath := Declared.trimSeparators (props.physicalPath?.getD e.header.path)
    framework := Framework.normalize (props.framework?.getD [])
    references := Reference.listOfOption props.projectReferences }

def Library.ofEntry (e : Entry) : Library :=
  { guid := e.header.guid, name := e.header.name, path := e.header.path }

def sites (es : List Entry) : List Site :=
  (es.filter fun e => e.kind? == some .site).map Site.ofEntry

def libraries (es : List Entry) : List Library :=
  (es.filter fun e => e.kind?.any Kind.isLibrary).map Library.ofEntry

end SiteProject.Solution
