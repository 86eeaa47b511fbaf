import SiteProject.Text.Basic

namespace SiteProject.Text

/-- The code points with the property `White_Space`. The zero-width space and the byte-order mark
are not among them. -/
def isBlank (c : Char) : Bool :=
  let n := c.toNat
  (0x09 ≤ n && n ≤ 0x0D) || n == 0x20 || n == 0x85 || n == 0xA0 || n == 0x1680 ||
    (0x2000 ≤ n && n ≤ 0x200A) || n == 0x2028 || n == 0x2029 || n == 0x202F || n == 0x205F ||
    n == 0x3000

def trimStart (s : Text) : Text := s.dropWhile isBlank

def trimEnd (s : Text) : Text := dropTail isBlank s

def trim (s : Text) : Text := trimEnd (trimStart s)

/-- The leading blanks, and the text after them. -/
def spanBlank (s : Text) : Text × Text := (s.takeWhile isBlank, s.dropWhile isBlank)

end SiteProject.Text
