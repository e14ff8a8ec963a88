import Sift.Data.Json
import Sift.Data.Yaml.Place

/-!
# Scalars of YAML

The texts of scalars in their four styles: `plain?` for those without quotes, `singleQuoted?` and
`doubleQuoted?` for those in quotes, and `block?` for those below a bar or an angle. Each is given
the place where the scalar begins and the `margin`, the least column at which it may go on, and
gives the text and the place behind it.
-/

namespace Sift.Yaml

/-! ### Gaps -/

/-- What stands between two parts of a scalar: space, or line ends with space around them. The
first line end may be an escaped one, which is not among the `breaks`. -/
structure Gap where
  spaces : List Char := []
  breaks : List Char := []
  isEscaped : Bool := false

namespace Gap

/-- Whether a gap goes over the end of a line. -/
def isBroken (gap : Gap) : Bool :=
  gap.isEscaped || !gap.breaks.isEmpty

/-- What a gap stands for: a single line end is a space, and of several the first is dropped. -/
def text (gap : Gap) : List Char :=
  if gap.isEscaped then gap.breaks
  else
    match gap.breaks with
    | [] => gap.spaces
    | ['\n'] => [' ']
    | '\n' :: more => more
    | breaks => breaks

end Gap

/-- The gap that begins at a place and the place behind it. On the lines of a gap no tab may stand
before the column `margin`. -/
def gapFrom? (margin : Nat) (gap : Gap) (index line column : Nat) :
    List Char → Option (Gap × Place)
  | [] => some (gap, ⟨index, line, column, []⟩)
  | c :: rest =>
    if isBreak c then
      gapFrom? margin { gap with spaces := [], breaks := gap.breaks ++ [c] }
        (index + 1) (line + 1) 0 rest
    else if isSpace c then
      if gap.isBroken then
        if c = '\t' && column < margin then none
        else gapFrom? margin gap (index + 1) line (column + 1) rest
      else
        gapFrom? margin { gap with spaces := gap.spaces ++ [c] } (index + 1) line (column + 1) rest
    else some (gap, ⟨index, line, column, c :: rest⟩)

/-- The gap that begins at a place and the place behind it. -/
def gap? (margin : Nat) (place : Place) (isEscaped : Bool) : Option (Gap × Place) :=
  gapFrom? margin { isEscaped } place.index place.line place.column place.rest

/-! ### Scalars without quotes -/

/-- Whether a text begins with a scalar without quotes. -/
def startsPlain (inFlow : Bool) : List Char → Bool
  | [] => false
  | c :: rest =>
    if c = '-' then !rest.head?.any isSpace
    else if c = '?' || c = ':' then !inFlow && !endsToken rest
    else
      !(isSpace c || isBreak c || isFlowSign c
        || ['#', '&', '*', '!', '|', '>', '"', '%', '@'].contains c
        || c.toNat = 0x27 || c.toNat = 0x60)

/-- The part of a scalar that stands in one piece, up to space or a sign, and what follows. Between
brackets or braces a colon must not stand before a sign. -/
def plainPiece? (inFlow : Bool) : List Char → Option (List Char × List Char)
  | [] => some ([], [])
  | c :: rest =>
    if isSpace c || isBreak c then some ([], c :: rest)
    else if inFlow && c = ':' && rest.head?.any (fun d => isFlowSign d || d = '?') then none
    else if c = ':' && endsToken rest then some ([], c :: rest)
    else if inFlow && isFlowSign c then some ([], c :: rest)
    else (plainPiece? inFlow rest).map fun found => (c :: found.1, found.2)

/-- The characters of a scalar from a place on, with the gap before it, the place behind the
scalar and the gap that follows it, and whether that gap is broken; `fuel` bounds the number of
pieces. -/
def plainFrom? (inFlow : Bool) (margin : Nat) : Nat → Gap → Place →
    Option (List Char × Place × Bool)
  | 0, _, _ => none
  | fuel + 1, gap, place => do
    if place.atBorder || place.rest.head? = some '#' then return ([], place, gap.isBroken)
    else
      let (piece, rest) ← plainPiece? inFlow place.rest
      let behind := place.skip piece.length
      if piece.isEmpty then return ([], place, gap.isBroken)
      else if !rest.head?.any fun c => isSpace c || isBreak c then
        return (gap.text ++ piece, behind, false)
      else
        let (next, behind) ← gap? margin behind false
        if !inFlow && behind.column < margin then
          return (gap.text ++ piece, behind, next.isBroken)
        else
          let (more, behind, isBroken) ← plainFrom? inFlow margin fuel next behind
          return (gap.text ++ piece ++ more, behind, isBroken)

/-- A scalar without quotes, the place behind it and the gap that follows it, and whether that gap
is broken. -/
def plain? (inFlow : Bool) (margin : Nat) (place : Place) : Option (String × Place × Bool) :=
  (plainFrom? inFlow margin (place.rest.length + 1) {} place).map fun found =>
    (String.ofList found.1, found.2)

/-! ### Scalars in quotes -/

/-- The characters of a scalar in single quotes, whose opening quote is behind us, and the place
behind the closing one. -/
def singleQuotedFrom? : Nat → Place → Option (List Char × Place)
  | 0, _ => none
  | fuel + 1, place =>
    if place.atBorder then none
    else
      match place.rest with
      | [] => none
      | c :: rest =>
        if c.toNat = 0x27 then
          if rest.head? = some c then
            (singleQuotedFrom? fuel (place.skip 2)).map fun found => (c :: found.1, found.2)
          else some ([], place.skip 1)
        else if isSpace c || isBreak c then do
          let (gap, behind) ← gap? 0 place false
          let (more, behind) ← singleQuotedFrom? fuel behind
          return (gap.text ++ more, behind)
        else (singleQuotedFrom? fuel (place.skip 1)).map fun found => (c :: found.1, found.2)

/-- The number that some hexadecimal digits write. -/
def hexValue? (cs : List Char) : Option Nat :=
  cs.foldlM (fun n c => (Json.hexDigit? c).map (16 * n + ·)) 0

/-- The character that the first `count` characters of a text write in hexadecimal digits, and
the length of the escape that they belong to. -/
def hexEscape? (count : Nat) (cs : List Char) : Option (Char × Nat) := do
  if cs.length < count then none
  else
    let n ← hexValue? (cs.take count)
    if (0xD800 ≤ n && n < 0xE000) || 0x10FFFF < n then none
    else return (Char.ofNat n, count + 2)

/-- The escapes of one character, by the character behind the backslash. -/
def shortEscapes : List (Char × Nat) :=
  [('0', 0), ('a', 7), ('b', 8), ('t', 9), ('\t', 9), ('n', 10), ('v', 11), ('f', 12), ('r', 13),
    ('e', 27), (' ', 32), ('"', 34), ('/', 47), ('\\', 92), ('N', 0x85), ('_', 0xA0),
    ('L', 0x2028), ('P', 0x2029)]

/-- The character that the text behind a backslash writes, and the length of the escape. -/
def escape? : List Char → Option (Char × Nat)
  | 'x' :: rest => hexEscape? 2 rest
  | 'u' :: rest => hexEscape? 4 rest
  | 'U' :: rest => hexEscape? 8 rest
  | c :: _ => (shortEscapes.lookup c).map fun n => (Char.ofNat n, 2)
  | [] => none

/-- The characters of a scalar in double quotes, whose opening quote is behind us, and the place
behind the closing one. -/
def doubleQuotedFrom? : Nat → Place → Option (List Char × Place)
  | 0, _ => none
  | fuel + 1, place =>
    if place.atBorder then none
    else
      match place.rest with
      | [] => none
      | '"' :: _ => some ([], place.skip 1)
      | '\\' :: rest =>
        if rest.head?.any isBreak then do
          let (gap, behind) ← gap? 0 (place.skip 1).next true
          let (more, behind) ← doubleQuotedFrom? fuel behind
          return (gap.text ++ more, behind)
        else do
          let (c, length) ← escape? rest
          let (more, behind) ← doubleQuotedFrom? fuel (place.skip length)
          return (c :: more, behind)
      | c :: _ =>
        if isSpace c || isBreak c then do
          let (gap, behind) ← gap? 0 place false
          let (more, behind) ← doubleQuotedFrom? fuel behind
          return (gap.text ++ more, behind)
        else (doubleQuotedFrom? fuel (place.skip 1)).map fun found => (c :: found.1, found.2)

/-- A scalar in single quotes. -/
def singleQuoted? (place : Place) : Option (String × Place) :=
  (singleQuotedFrom? (place.rest.length + 1) (place.skip 1)).map fun found =>
    (String.ofList found.1, found.2)

/-- A scalar in double quotes. -/
def doubleQuoted? (place : Place) : Option (String × Place) :=
  (doubleQuotedFrom? (place.rest.length + 1) (place.skip 1)).map fun found =>
    (String.ofList found.1, found.2)

/-! ### Block scalars -/

/-- What happens to the line ends at the end of a block scalar. -/
inductive Chomp where
  | clip | strip | keep
deriving DecidableEq

/-- The sign for what happens at the end, if there is one. -/
def chompSign? : List Char → Option (Chomp × List Char)
  | '-' :: rest => some (.strip, rest)
  | '+' :: rest => some (.keep, rest)
  | _ => none

/-- The number of columns that a text begins with as a digit, `0` if it does not. -/
def stepSign? : List Char → Option (Nat × List Char)
  | [] => some (0, [])
  | c :: rest =>
    if c = '0' then none else if c.isDigit then some (c.toNat - 48, rest) else some (0, c :: rest)

/-- The signs behind the bar or angle of a block scalar, in either order: what happens at its end,
and by how many columns it is indented. -/
def blockSigns? (cs : List Char) : Option (Chomp × Nat × List Char) :=
  match chompSign? cs with
  | some (chomp, rest) => (stepSign? rest).map fun found => (chomp, found.1, found.2)
  | none =>
    (stepSign? cs).map fun found =>
      if found.1 = 0 then (.clip, 0, found.2)
      else
        match chompSign? found.2 with
        | some (chomp, rest) => (chomp, found.1, rest)
        | none => (.clip, found.1, found.2)

/-- The line ends of empty lines from a place on, the greatest column on them, and the place where
something else follows. The lines have `column` columns of indentation, as many as they like if
that is `0`. -/
def emptyLines? (indent : Nat) (breaks : List Char) (widest : Nat) (index line column : Nat) :
    List Char → Option (List Char × Nat × Place)
  | [] => some (breaks, max widest column, ⟨index, line, column, []⟩)
  | c :: rest =>
    let isBefore := indent = 0 || column < indent
    if isBefore && c = ' ' then
      emptyLines? indent breaks widest (index + 1) line (column + 1) rest
    else if isBefore && c = '\t' then none
    else if isBreak c then
      emptyLines? indent (breaks ++ [c]) (max widest column) (index + 1) (line + 1) 0 rest
    else some (breaks, max widest column, ⟨index, line, column, c :: rest⟩)

/-- The line end between two lines of a block scalar and the empty lines that follow it. In a
folded scalar a line end between two lines that begin without space becomes a space, or nothing
if empty lines follow it. -/
def joint (isFolded : Bool) (ending empty : List Char) (spaceBefore spaceBehind : Bool) :
    List Char :=
  if isFolded && ending == ['\n'] && !spaceBefore && !spaceBehind then
    if empty.isEmpty then [' '] else empty
  else ending ++ empty

/-- The lines of a block scalar from a place on, given the line end and the empty lines before it;
then those at its end, and the place behind it. `fuel` bounds the number of lines. -/
def blockLines? (isFolded : Bool) (indent : Nat) : Nat → List Char → List Char → Bool → Place →
    Option (List Char × List Char × List Char × Place)
  | 0, _, _, _, _ => none
  | fuel + 1, ending, empty, spaceBefore, place => do
    if place.column = indent && !place.rest.isEmpty then
      let startsBlank := place.rest.head?.any isSpace
      let line := place.rest.takeWhile (!isBreak ·)
      let behind := place.skip line.length
      let after := behind.next
      let (next, _, after) ←
        emptyLines? indent [] 0 after.index after.line after.column after.rest
      let (more, last, trailing, after) ←
        blockLines? isFolded indent fuel (behind.rest.take 1) next startsBlank after
      return (joint isFolded ending empty spaceBefore startsBlank ++ line ++ more, last, trailing,
        after)
    else return ([], ending, empty, place)

/-- A block scalar, whose bar or angle is at a place. -/
def block? (isFolded : Bool) (margin : Nat) (place : Place) : Option (String × Place) := do
  let cs := place.rest.drop 1
  let (chomp, step, rest) ← blockSigns? cs
  let place ← (place.skip (1 + (cs.length - rest.length))).behindLine?
  let given := if step = 0 then 0 else margin - 1 + step
  let (empty, widest, place) ←
    emptyLines? given [] 0 place.index place.line place.column place.rest
  let indent := if step = 0 then max (max widest margin) 1 else given
  let (lines, ending, trailing, place) ←
    blockLines? isFolded indent (place.rest.length + 1) [] empty false place
  let last := match chomp with
    | .strip => []
    | .clip => ending
    | .keep => ending ++ trailing
  return (String.ofList (lines ++ last), place)

end Sift.Yaml
