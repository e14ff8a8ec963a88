import Sift.Text.Ranges

/-!
# White space

`isBlank` is the Unicode property White_Space; `trim` cuts it off both ends of a text.
-/

namespace Sift.Text

/-- The characters with the property White_Space. -/
def blanks : Ranges := [
  (0x9, 0xD), (0x20, 0x20), (0x85, 0x85), (0xA0, 0xA0), (0x1680, 0x1680), (0x2000, 0x200A),
  (0x2028, 0x2029), (0x202F, 0x202F), (0x205F, 0x205F), (0x3000, 0x3000)]

/-- Whether a character is white space. -/
def isBlank (c : Char) : Bool :=
  blanks.has c

/-- The characters left when white space is cut off both ends. -/
def trim (cs : List Char) : List Char :=
  ((cs.dropWhile isBlank).reverse.dropWhile isBlank).reverse

end Sift.Text
