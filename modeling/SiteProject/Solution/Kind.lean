import SiteProject.Text.Case

namespace SiteProject.Solution

/-- The kinds of solution entries that matter here, told apart by the entry's type GUID. -/
inductive Kind
  | site
  | classicLibrary
  | sdkLibrary
  deriving DecidableEq, Repr

namespace Kind

def siteGuid : Text := "E24C65DC-7377-472B-9ABA-BC803B73C61A".toList

def classicLibraryGuid : Text := "FAE04EC0-301F-11D3-BF4B-00C04F79EFBC".toList

def sdkLibraryGuid : Text := "9A19103F-16F7-4668-BE54-9A1E7A4F7556".toList

def typeGuid : Kind → Text
  | site => siteGuid
  | classicLibrary => classicLibraryGuid
  | sdkLibrary => sdkLibraryGuid

/-- A GUID means the same in upper and lower case. -/
def ofTypeGuid? (guid : Text) : Option Kind :=
  [site, classicLibrary, sdkLibrary].find? fun k => Text.sameLetters k.typeGuid guid

def isLibrary : Kind → Bool
  | site => false
  | classicLibrary => true
  | sdkLibrary => true

theorem ofTypeGuid?_typeGuid (k : Kind) : ofTypeGuid? k.typeGuid = some k := by
  cases k <;> decide +kernel

end Kind
end SiteProject.Solution
