import SiteProject.Console.Block
import SiteProject.Settings.File

namespace SiteProject.Console

open Conversion (Report Dependency)

/-- The icon and the text of a closing line, in one tone. -/
def remark (l : Look) (i : Icon) (t : Text) : Text :=
  line [i.render l, [' '], Span.render l ⟨t, i.tone, false⟩]

namespace Report

def siteFact (r : Report) : Text :=
  if 1 < r.siteCount then
    r.site.name ++ " (".toList ++ Text.ofNat r.picked ++ " of ".toList ++ Text.ofNat r.siteCount ++
      [')']
  else r.site.name

def header (r : Report) : Header where
  icon := .convert
  title := "sln2csproj".toList
  facts :=
    [("Solution".toList, r.solution.text),
     ("Website".toList, siteFact r),
     ("PhysicalPath".toList, r.site.physicalPath),
     ("Framework".toList, r.site.framework),
     ("Descriptor".toList, r.descriptor.text),
     ("Mode".toList, r.placement.name),
     ("References".toList, Text.ofNat r.dependencies.length)]

/-- A guess is marked, and so is a hint that fell back to the site's `Bin` folder. -/
def iconOf (d : Dependency) : Icon :=
  if d.isGuess || d.fallback.isSome then .guess else .success

def detail (l : Look) (label : String) (t : Text) : Text :=
  line ["      ".toList, Span.render l ⟨label.toList, .dim, false⟩, [' '], t]

def dependency (l : Look) (d : Dependency) : Text :=
  line [[' ', ' '], (iconOf d).render l, [' '], d.reference.dll] ++ detail l "from:" d.origin ++
    detail l "hint:" d.hint

def guesses (l : Look) (count : Nat) : Text :=
  if count = 0 then []
  else
    remark l .warning (Text.ofNat count ++ (" reference(s) not found on disk; build the " ++
      "libraries or use --verbose to see the guessed paths.").toList)

/-- The dependencies are listed on request. -/
def render (l : Look) (verbose : Bool) (r : Report) : Text :=
  let listed := verbose && !r.dependencies.isEmpty
  (header r).render l ++
    (if listed then line [] ++ r.dependencies.flatMap (dependency l) else []) ++
    line [] ++
    line [Icon.render l .success, [' '], Span.render l ⟨"Open".toList, .success, false⟩, [' '],
      r.rerooted.text] ++
    guesses l r.guessCount

end Report

namespace Check

def header (solution : Path) (siteCount libraryCount : Nat) : Header where
  icon := .check
  title := "sln2csproj check".toList
  facts :=
    [("Solution".toList, solution.text),
     ("Websites".toList, Text.ofNat siteCount),
     ("Libraries".toList, Text.ofNat libraryCount)]

def site (l : Look) (index : Nat) (s : Solution.Site) : Text :=
  let position := ['['] ++ Text.ofNat index ++ [']']
  line [[' ', ' '], Span.render l ⟨position, .info, false⟩, [' '],
      Span.render l ⟨s.name, .info, true⟩] ++
    line ["      PhysicalPath: ".toList, orDash s.physicalPath] ++
    line ["      Framework:    ".toList, s.framework] ++
    line ["      References:   ".toList, Text.ofNat s.references.length]

/-- The sites from a position on. -/
def sites (l : Look) : Nat → List Solution.Site → Text
  | _, [] => []
  | n, s :: ss => site l n s ++ sites l (n + 1) ss

/-- With several sites the user has to pick one. -/
def verdict (l : Look) (siteCount : Nat) : Text :=
  if 1 < siteCount then
    remark l .warning (Text.ofNat siteCount ++
      " websites found; pass --pick N to choose one (default 1).".toList)
  else remark l .success "Ready to convert.".toList

def render (l : Look) (solution : Path) (ss : List Solution.Site) (libraryCount : Nat) : Text :=
  (header solution ss.length libraryCount).render l ++ line [] ++ sites l 1 ss ++ line [] ++
    verdict l ss.length

end Check

/-- Where a key that means nothing stands, and what it may have been meant for. -/
def unknownKey (w : Settings.Warning) : WarningBlock where
  title := "Unknown config key '".toList ++ w.key ++ ['\x27']
  lines :=
    (match w.line with
      | none => w.file.text
      | some n => w.file.text ++ ':' :: Text.ofNat n) ::
    (w.suggestion.map fun s => "Did you mean '".toList ++ s ++ "'?".toList).toList

/-- The project file of a library that is there but cannot be read. -/
def unreadableProject (d : Dependency) (reason : Text) : WarningBlock where
  title := "Could not read ".toList ++ d.resolution.library.getD ['?']
  lines := [reason, d.reference.dll ++ " resolved via ".toList ++ d.origin]

end SiteProject.Console
