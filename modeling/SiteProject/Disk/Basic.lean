import SiteProject.Path.Basic

namespace SiteProject

/-- Why an operation failed, apart from the path it failed on. -/
inductive Cause
  | notFound
  | denied
  | isFolder
  | notFolder
  | exists
  | busy
  | nameTooLong
  | nulInName
  | notAFile
  | notText
  | other (message : Text)
  deriving DecidableEq, Repr

namespace Cause

def message : Cause → Text
  | notFound => "No such file or directory (os error 2)".toList
  | denied => "Permission denied (os error 13)".toList
  | isFolder => "Is a directory (os error 21)".toList
  | notFolder => "Not a directory (os error 20)".toList
  | .exists => "File exists (os error 17)".toList
  | busy => "Device or resource busy (os error 16)".toList
  | nameTooLong => "File name too long (os error 36)".toList
  | nulInName => "file name contained an unexpected NUL byte".toList
  | notAFile => "the source path is neither a regular file nor a symlink to a regular file".toList
  | notText => "stream did not contain valid UTF-8".toList
  | other m => m

end Cause

structure DiskFailure where
  path : Path
  cause : Cause
  deriving DecidableEq, Repr

/-- A missing path and a refused one are named as such; any other cause gives its own message. -/
def DiskFailure.message (f : DiskFailure) : Text :=
  match f.cause with
  | .notFound => "File not found: ".toList ++ f.path.text
  | .denied => "Permission denied: ".toList ++ f.path.text
  | c => "I/O error on ".toList ++ f.path.text ++ ": ".toList ++ c.message

/-- The folder that a file is written in: the one that its path lies in, which is the working folder
for a plain name. -/
def Path.enclosing (p : Path) : Path :=
  match p.parent? with
  | none => ⟨['.']⟩
  | some q => if q.isEmpty then ⟨['.']⟩ else q

/-- The operations. `exists?` and `isFile?` take every failure for a no. -/
class Disk (m : Type → Type) where
  exists? : Path → m Bool
  isFile? : Path → m Bool
  readText : Path → ExceptT DiskFailure m Text
  /-- Replaces the file if there is one. -/
  writeText : Path → Text → ExceptT DiskFailure m Unit
  /-- Makes the folder and those it lies in. -/
  makeFolders : Path → ExceptT DiskFailure m Unit
  /-- From the first path to the second, which is replaced if it is there. -/
  copyFile : Path → Path → ExceptT DiskFailure m Unit

end SiteProject
