import SiteProject.Text.Blank
import SiteProject.Text.Case

namespace SiteProject.Solution.Framework

def default : Text := "v3.5".toList

def versionWord : Text := "version".toList

/-- The digits at the start, with a fraction if one follows them. -/
def decimal? (s : Text) : Option Text :=
  match s.takeWhile Char.isDigit with
  | [] => none
  | digits =>
    match s.dropWhile Char.isDigit with
    | '.' :: t =>
      match t.takeWhile Char.isDigit with
      | [] => some digits
      | fraction => some (digits ++ '.' :: fraction)
    | _ => some digits

def withoutV : Text → Text
  | 'v' :: s => s
  | 'V' :: s => s
  | s => s

/-- The number after the word `version`, an equals sign and perhaps a `v`. -/
def versionHere? (s : Text) : Option Text :=
  if Text.sameLetters (s.take versionWord.length) versionWord then do
    let s ← Text.after? ['='] (Text.trimStart (s.drop versionWord.length))
    decimal? (withoutV (Text.trimStart s))
  else none

def version? : Text → Option Text
  | [] => none
  | c :: s => (versionHere? (c :: s)).or (version? s)

/-- `net` and the two digits of a version. -/
def shorthand? : Text → Option (Char × Char)
  | [n, e, t, major, minor] =>
    if Text.sameLetters [n, e, t] ['n', 'e', 't'] && major.isDigit && minor.isDigit then
      some (major, minor)
    else none
  | _ => none

/-- The framework tag, such as `v4.5`. Solutions also write `4.5`, `.NETFramework,Version=v4.5` or `net45`; all
are brought to the one form, and what says nothing usable to `v3.5`. -/
def normalize (raw : Text) : Text :=
  let s := Text.trim raw
  if s == [] then default
  else if s.head? == some 'v' then s
  else
    match version? s with
    | some number => 'v' :: number
    | none =>
      if decimal? s == some s then 'v' :: s
      else
        match shorthand? s with
        | some (major, minor) => ['v', major, '.', minor]
        | none => default

end SiteProject.Solution.Framework
