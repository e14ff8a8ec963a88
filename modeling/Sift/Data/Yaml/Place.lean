/-!
# Places in a YAML text

A `Place` is what is left of a text together with where that begins. The classes of characters
that settle how a text is cut into tokens stand here as well.
-/

namespace Sift.Yaml

/-! ### Characters -/

/-- Whether a character may stand in a text at all. -/
def isAllowed (c : Char) : Bool :=
  let n := c.toNat
  c = '\t' || c = '\n' || c = '\r' || (0x20 ≤ n && n ≤ 0x7E) || n = 0x85
    || (0xA0 ≤ n && n ≠ 0xFFFE && n ≠ 0xFFFF)

/-- Whether a character ends a line, once the usual line ends are all written in one way. -/
def isBreak (c : Char) : Bool :=
  c = '\n' || c.toNat = 0x2028 || c.toNat = 0x2029

/-- Whether a character separates tokens on a line. -/
def isSpace (c : Char) : Bool :=
  c = ' ' || c = '\t'

/-- Whether a character may stand in a name. -/
def isNameChar (c : Char) : Bool :=
  c.isAlphanum || c = '_' || c = '-'

/-- Whether a character has a meaning of its own between brackets or braces. -/
def isFlowSign (c : Char) : Bool :=
  [',', '[', ']', '\x7b', '\x7d'].contains c

/-- Whether a token ends before a text. -/
def endsToken : List Char → Bool
  | [] => true
  | c :: _ => isSpace c || isBreak c

/-- Whether a line ends before a text. -/
def endsLine : List Char → Bool
  | [] => true
  | c :: _ => isBreak c

/-- The text with single characters for line ends. -/
def unifyLineEnds : List Char → List Char
  | '\r' :: '\n' :: rest => '\n' :: unifyLineEnds rest
  | c :: rest =>
    (if c = '\r' || c.toNat = 0x85 then '\n' else c) :: unifyLineEnds rest
  | [] => []

/-! ### Places -/

/-- A place in a text: the numbers of characters before it, of lines before its own and of
characters before it on its own line, and what follows. -/
structure Place where
  index : Nat := 0
  line : Nat := 0
  column : Nat := 0
  rest : List Char

namespace Place

/-- The place behind the next character. -/
def next (place : Place) : Place :=
  match place.rest with
  | [] => place
  | c :: rest =>
    if isBreak c then ⟨place.index + 1, place.line + 1, 0, rest⟩
    else ⟨place.index + 1, place.line, place.column + 1, rest⟩

/-- The place behind the next `count` characters, none of which ends a line. -/
def skip (place : Place) (count : Nat) : Place :=
  ⟨place.index + count, place.line, place.column + count, place.rest.drop count⟩

/-- The place behind the next characters as long as they satisfy `p`, which holds of no line
end. -/
def skipWhile (p : Char → Bool) (place : Place) : Place :=
  place.skip (place.rest.takeWhile p).length

/-- Whether a line with the given mark for a border between documents begins at a place. -/
def atMark (mark : Char) (place : Place) : Bool :=
  place.column = 0 && (place.rest.take 3 == [mark, mark, mark]) && endsToken (place.rest.drop 3)

/-- Whether a border between documents is at a place. -/
def atBorder (place : Place) : Bool :=
  place.atMark '-' || place.atMark '.'

/-- The place behind the rest of the line and its end, if nothing but space and a comment is
left on it. -/
def behindLine? (place : Place) : Option Place :=
  let place := place.skipWhile isSpace
  let place := if place.rest.head? = some '#' then place.skipWhile (!isBreak ·) else place
  if endsLine place.rest then some place.next else none

end Place

end Sift.Yaml
