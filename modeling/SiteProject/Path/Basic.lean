import SiteProject.Text.Basic

namespace SiteProject

/-- A path of the machine, which separates with `/`. It keeps the text that it was written with; what it names
is its list of parts. All operations are lexical. -/
structure Path where
  text : Text
  deriving DecidableEq, Repr, Inhabited

/-- One step of a path. -/
inductive Part
  | root
  | here
  | up
  | name (n : Text)
  deriving DecidableEq, Repr

namespace Part

def text : Part → Text
  | root => ['/']
  | here => ['.']
  | up => ['.', '.']
  | name n => n

/-- What a text between two separators stands for. Nothing and a dot stand for no step. -/
def ofSegment? (w : Text) : Option Part :=
  if w = [] ∨ w = ['.'] then none
  else if w = ['.', '.'] then some up
  else some (name w)

def rank : Part → Nat
  | root => 0
  | here => 1
  | up => 2
  | name _ => 3

def le : List Part → List Part → Bool
  | [], _ => true
  | _ :: _, [] => false
  | a :: as, b :: bs =>
    if a = b then le as bs
    else
      match a, b with
      | name m, name n => Text.le m n
      | _, _ => rank a < rank b

/-- One more step after the steps so far, of which the last comes first: a step up takes back a name,
and stays at the root. -/
def push : List Part → Part → List Part
  | done, here => done
  | name _ :: done, up => done
  | root :: done, up => root :: done
  | done, p => p :: done

/-- The steps with every step that is taken back left out. -/
def settle (ps : List Part) : List Part := (ps.foldl push []).reverse

/-- The steps from one place to another: up from what they do not share, then down. A target that
starts at the root is reached from anywhere. -/
def between : List Part → List Part → List Part
  | a :: as, b :: bs =>
    if a = b then between as bs
    else if b = root then b :: bs
    else (a :: as).map (fun _ => up) ++ (b :: bs)
  | [], bs => bs
  | as, [] => as.map fun _ => up

end Part

namespace Path

def ofString (s : String) : Path := ⟨s.toList⟩

def isEmpty (p : Path) : Bool := p.text.isEmpty

def isAbsolute (p : Path) : Bool := p.text.head? == some '/'

/-- The steps that a path names. A dot counts only where the path starts with it. -/
def parts (p : Path) : List Part :=
  match p.text with
  | '/' :: s => Part.root :: (Text.split (· == '/') s).filterMap Part.ofSegment?
  | s =>
    match Text.split (· == '/') s with
    | ['.'] :: ws => Part.here :: ws.filterMap Part.ofSegment?
    | ws => ws.filterMap Part.ofSegment?

/-- The plain way to write the steps. -/
def ofParts : List Part → Path
  | Part.root :: ps => ⟨'/' :: Text.join ['/'] (ps.map Part.text)⟩
  | ps => ⟨Text.join ['/'] (ps.map Part.text)⟩

/-- Two spellings of the same steps. -/
def same (p q : Path) : Bool := p.parts == q.parts

/-- The first path's steps begin the second's. -/
def holds (p q : Path) : Bool := p.parts.isPrefixOf q.parts

def le (p q : Path) : Bool := Part.le p.parts q.parts

/-- The second path taken from the first; an absolute one stands for itself. -/
def join (p q : Path) : Path :=
  if q.isAbsolute then q
  else if p.isEmpty || p.text.getLast? == some '/' then ⟨p.text ++ q.text⟩
  else ⟨p.text ++ '/' :: q.text⟩

def joinText (p : Path) (t : Text) : Path := p.join ⟨t⟩

def normalize (p : Path) : Path := ofParts (Part.settle p.parts)

/-- The way from a folder to another place; empty when they are the same. -/
def relative (folder target : Path) : Path :=
  ofParts (Part.between folder.normalize.parts target.normalize.parts)

/-- Segments that name no step at the end of a path. -/
def isIdle (w : Text) : Bool := w == [] || w == ['.']

/-- The path without its last step, spelled as before. The root and the empty path have none. -/
def parent? (p : Path) : Option Path :=
  let dropIdle (ws : List Text) := (ws.reverse.dropWhile isIdle).reverse
  match Text.split (· == '/') p.text with
  | [] => none
  | w :: ws =>
    match dropIdle ws with
    | [] => if w.isEmpty then none else some ⟨[]⟩
    | v :: vs =>
      let kept := w :: dropIdle (v :: vs).dropLast
      if kept == [[]] then some ⟨['/']⟩ else some ⟨Text.join ['/'] kept⟩

end Path
end SiteProject
