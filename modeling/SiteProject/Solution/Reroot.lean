import SiteProject.Path.Declared
import SiteProject.Solution.Layout
import SiteProject.Text.Lines

namespace SiteProject.Solution

/-- Where the text comes from, where it goes, and which site is replaced by which project. -/
structure Move where
  source : Path
  target : Path
  siteGuid : Text
  descriptor : Path

namespace Move

/-- URLs and absolute paths lead to the same place from anywhere. -/
def path (m : Move) (p : Text) : Text :=
  if Declared.isUrl p || Declared.isAbsolute p then p
  else Declared.relative m.target (m.source.join (Declared.toNative p))

/-- The entry that lists the generated project in place of a site's entry. -/
def projectEntry (m : Move) (ending : Text.LineEnding) (e : Entry) : Text :=
  "Project(\"\x7b".toList ++ Kind.classicLibrary.typeGuid ++ "\x7d\") = \"".toList ++
    e.header.name ++ "\", \"".toList ++ Declared.relative m.target m.descriptor ++
    "\", \"\x7b".toList ++ e.header.guid ++ "\x7d\"".toList ++ ending.text ++ Entry.closing

def entry (m : Move) (ending : Text.LineEnding) (e : Entry) : Text :=
  if e.hasGuid m.siteGuid then m.projectEntry ending e
  else e.beforePath ++ m.path e.header.path ++ e.afterPath

def piece (m : Move) (ending : Text.LineEnding) : Piece → Text
  | .other c => [c]
  | .entry e => m.entry ending e

/-- The text of the solution for its copy in another folder. Entries with the Web Site's GUID become entries of
the generated project; of all other entries only the path changes, so that it leads to the same place from
the new folder; all text between entries stays. -/
def text (m : Move) (content : Text) : Text :=
  (layout content).flatMap (m.piece (Text.LineEnding.of content))

end Move
end SiteProject.Solution
