import Sift.Data.Yaml.Scalar

/-!
# Tokens of YAML

`Token.scan?` cuts a YAML text into tokens. Beside the signs and scalars of the text there are
tokens where a list or record in block style begins and ends, which follow from the indentation,
and one before each key. A key without a question mark is known as one only by the colon behind
it; the places where one may have begun are kept until then.
-/

namespace Sift.Yaml

/-- The style of a scalar, as far as it matters. -/
inductive Style where
  | plain | quoted | literal
deriving DecidableEq

/-- A token of a YAML text. -/
inductive Token where
  | version
  | handle (name prefixed : String)
  | documentStart | documentEnd
  | blockList | blockRecord | blockEnd
  | flowList | flowListEnd | flowRecord | flowRecordEnd
  | item | comma | key | value
  | mention (name : String)
  | anchor (name : String)
  | tag (handle suffix : String)
  | scalar (style : Style) (s : String)
deriving DecidableEq

namespace Token

/-! ### The state between tokens -/

/-- A place where a key may have begun: how many tokens stand before it, where it is, and whether
nothing but a key can stand there. -/
structure Candidate where
  before : Nat
  index : Nat
  line : Nat
  column : Nat
  isNeeded : Bool

/-- The greatest length of a key that has no question mark. -/
def keyLimit : Nat := 1024

/-- What is known between two tokens. -/
structure State where
  place : Place
  /-- One more than the columns at which the lists and records around us begin. -/
  margins : List Nat := []
  /-- The candidate for a key outside brackets and braces, or inside the innermost ones. -/
  candidate : Option Candidate := none
  /-- The candidates outside the brackets and braces around us, from the inside out. -/
  outer : List (Option Candidate) := []
  /-- Whether a key may begin here. -/
  keyAllowed : Bool := true
  /-- The tokens so far, the last one first. -/
  found : List Token := []
  count : Nat := 0

namespace State

/-- Whether we are between brackets or braces. -/
def inFlow (st : State) : Bool :=
  !st.outer.isEmpty

/-- The least column of what belongs to the innermost list or record. -/
def margin (st : State) : Nat :=
  st.margins.head?.getD 0

/-- Adds a token. -/
def push (st : State) (token : Token) : State :=
  { st with found := token :: st.found, count := st.count + 1 }

/-- Adds a token before which there are `before` others. -/
def insert (st : State) (before : Nat) (token : Token) : State :=
  let behind := st.count - before
  { st with
    found := st.found.take behind ++ token :: st.found.drop behind
    count := st.count + 1 }

/-- Ends the lists and records whose margin is greater than `margin`. -/
def closeTo (st : State) (margin : Nat) : State :=
  if st.inFlow then st
  else
    let closed := st.margins.takeWhile (margin < ·)
    { st with
      margins := st.margins.drop closed.length
      found := List.replicate closed.length blockEnd ++ st.found
      count := st.count + closed.length }

/-- Begins a list or record at a column, unless one has begun there or further right. -/
def openAt (st : State) (column before : Nat) (token : Token) : State :=
  if st.inFlow || column < st.margin then st
  else { st with margins := (column + 1) :: st.margins }.insert before token

/-- Drops the candidate, which must not be needed. -/
def dropCandidate? (st : State) : Option State :=
  if st.candidate.any Candidate.isNeeded then none else some { st with candidate := none }

/-- Takes the present place for a candidate, if a key may begin here. -/
def keepCandidate? (st : State) : Option State :=
  if st.keyAllowed then do
    let st ← st.dropCandidate?
    let isNeeded := !st.inFlow && st.margin = st.place.column + 1
    return { st with
      candidate := some ⟨st.count, st.place.index, st.place.line, st.place.column, isNeeded⟩ }
  else some st

/-- Whether a candidate is on another line or too far back. -/
def isStale (place : Place) (candidate : Candidate) : Bool :=
  candidate.line < place.line || candidate.index + keyLimit < place.index

/-- Drops all stale candidates, none of which must be needed. -/
def dropStale? (st : State) : Option State :=
  let stale := isStale st.place
  if (st.candidate :: st.outer).any fun found => found.any fun c => stale c && c.isNeeded then none
  else
    some { st with
      candidate := st.candidate.filter (!stale ·)
      outer := st.outer.map (Option.filter (!stale ·)) }

/-- Goes on at a place, where a key may begin or not. -/
def goOn (st : State) (place : Place) (keyAllowed : Bool) : State :=
  { st with place, keyAllowed }

/-! ### Space -/

/-- The next place that is neither space nor a line end nor in a comment, and whether a key may
begin there. Where a key may begin a tab is no space. -/
def spaceFrom (inFlow : Bool) (keyAllowed inComment : Bool) (index line column : Nat) :
    List Char → Place × Bool
  | [] => (⟨index, line, column, []⟩, keyAllowed)
  | c :: rest =>
    if isBreak c then spaceFrom inFlow (keyAllowed || !inFlow) false (index + 1) (line + 1) 0 rest
    else if inComment || c = '#' then
      spaceFrom inFlow keyAllowed true (index + 1) line (column + 1) rest
    else if c = ' ' || (c = '\t' && (inFlow || !keyAllowed)) then
      spaceFrom inFlow keyAllowed false (index + 1) line (column + 1) rest
    else (⟨index, line, column, c :: rest⟩, keyAllowed)

/-- Goes on to the next token, ends what ends before its column, and drops stale candidates. -/
def toToken? (st : State) : Option State := do
  let place := st.place
  let (place, keyAllowed) :=
    spaceFrom st.inFlow st.keyAllowed false place.index place.line place.column place.rest
  let st ← (st.goOn place keyAllowed).dropStale?
  return st.closeTo (place.column + 1)

/-! ### Signs -/

/-- A sign of `length` characters between documents. -/
def border? (st : State) (token : Token) : Option State := do
  let st ← (st.closeTo 0).dropCandidate?
  return (st.push token).goOn (st.place.skip 3) false

/-- An opening bracket or brace. -/
def openFlow? (st : State) (token : Token) : Option State := do
  let st ← st.keepCandidate?
  let st := st.push token
  let st := { st with candidate := none, outer := st.candidate :: st.outer }
  return st.goOn (st.place.skip 1) true

/-- A closing bracket or brace. -/
def closeFlow? (st : State) (token : Token) : Option State := do
  let st ← st.dropCandidate?
  let st := match st.outer with
    | candidate :: outer => { st with candidate, outer }
    | [] => st
  return (st.push token).goOn (st.place.skip 1) false

/-- A comma between brackets or braces. -/
def comma? (st : State) : Option State := do
  let st ← st.dropCandidate?
  return (st.push comma).goOn (st.place.skip 1) true

/-- The dash before an item. -/
def item? (st : State) : Option State := do
  if !st.inFlow && !st.keyAllowed then none
  else
    let st ← (st.openAt st.place.column st.count blockList).dropCandidate?
    return (st.push item).goOn (st.place.skip 1) true

/-- The question mark before a key. -/
def key? (st : State) : Option State := do
  if !st.inFlow && !st.keyAllowed then none
  else
    let st ← (st.openAt st.place.column st.count blockRecord).dropCandidate?
    return (st.push key).goOn (st.place.skip 1) !st.inFlow

/-- The colon behind a key, whether it is a candidate or one with a question mark. -/
def value? (st : State) : Option State :=
  match st.candidate with
  | some c =>
    let st := { st with candidate := none }.insert c.before key
    let st := st.openAt c.column c.before blockRecord
    some ((st.push value).goOn (st.place.skip 1) false)
  | none =>
    if !st.inFlow && !st.keyAllowed then none
    else
      let st := st.openAt st.place.column st.count blockRecord
      some ((st.push value).goOn (st.place.skip 1) !st.inFlow)

/-! ### Anchors -/

/-- Whether a name may end before a text. -/
def endsName (cs : List Char) : Bool :=
  endsToken cs
    || cs.head?.any fun c => ['?', ':', ',', ']', '\x7d', '%', '@'].contains c || c.toNat = 0x60

/-- The name of an anchor or alias, whose sign is behind us. -/
def name? (place : Place) : Option (String × Place) :=
  let name := place.rest.takeWhile isNameChar
  let behind := place.skip name.length
  if name.isEmpty || !endsName behind.rest then none else some (String.ofList name, behind)

/-- An anchor or alias. -/
def named? (st : State) (token : String → Token) : Option State := do
  let st ← st.keepCandidate?
  let (name, place) ← name? (st.place.skip 1)
  return (st.push (token name)).goOn place false

/-! ### Tags -/

/-- Whether a character may stand in a tag, which may be one between angle brackets. -/
def isTagChar (isVerbatim : Bool) (c : Char) : Bool :=
  isNameChar c
    || [';', '/', '?', ':', '@', '&', '=', '+', '$', '.', '%', '!', '~', '*', '(', ')'].contains c
    || c.toNat = 0x27 || (isVerbatim && [',', '[', ']'].contains c)

/-- The bytes of a text in which percent signs stand before bytes of two hexadecimal digits. -/
def tagBytes? : List Char → Option (List UInt8)
  | '%' :: a :: b :: rest => do
    let byte := 16 * (← Json.hexDigit? a) + (← Json.hexDigit? b)
    return UInt8.ofNat byte :: (← tagBytes? rest)
  | '%' :: _ => none
  | c :: rest => return c.toString.toUTF8.toList ++ (← tagBytes? rest)
  | [] => some []

/-- The text of some characters of a tag. -/
def tagText? (cs : List Char) : Option String := do
  String.fromUTF8? ⟨(← tagBytes? cs).toArray⟩

/-- What a tag goes on with, and the place behind it. -/
def suffix? (isVerbatim : Bool) (place : Place) : Option (String × Place) := do
  let cs := place.rest.takeWhile (isTagChar isVerbatim)
  return (← tagText? cs, place.skip cs.length)

/-- The handle and the suffix of a tag, and the place behind it. -/
def tag? (place : Place) : Option (String × String × Place) := do
  match place.rest with
  | '!' :: '<' :: _ =>
    let (suffix, behind) ← suffix? true (place.skip 2)
    if suffix.isEmpty || behind.rest.head? ≠ some '>' then none
    else return ("", suffix, behind.skip 1)
  | _ =>
    let name := (place.rest.drop 1).takeWhile isNameChar
    if (place.rest.drop (name.length + 1)).head? = some '!' then
      let (suffix, behind) ← suffix? false (place.skip (name.length + 2))
      if suffix.isEmpty then none
      else return ("!" ++ String.ofList name ++ "!", suffix, behind)
    else
      let (suffix, behind) ← suffix? false (place.skip 1)
      if suffix.isEmpty then return ("", "!", behind) else return ("!", suffix, behind)

/-- A tag, behind which space or a comma between brackets or braces must stand. -/
def tagged? (st : State) : Option State := do
  let st ← st.keepCandidate?
  let (start, suffix, place) ← tag? st.place
  if endsToken place.rest || (st.inFlow && place.rest.head? = some ',') then
    return (st.push (tag start suffix)).goOn place false
  else none

/-! ### Directives -/

/-- The digits of a number in a version, and the place behind them. -/
def number? (place : Place) : Option (List Char × Place) :=
  let digits := place.rest.takeWhile Char.isDigit
  if digits.isEmpty || 9 < digits.length then none else some (digits, place.skip digits.length)

/-- A version, which must be 1.1 or 1.2. -/
def version? (place : Place) : Option (Token × Place) := do
  let (major, place) ← number? (place.skipWhile isSpace)
  if place.rest.head? ≠ some '.' then none
  else
    let (minor, place) ← number? (place.skip 1)
    let n := Number.digitsValue minor
    if Number.digitsValue major = 1 && (n = 1 || n = 2) then return (version, place) else none

/-- The handle of a tag and what it stands for. -/
def handle? (place : Place) : Option (Token × Place) := do
  let place := place.skipWhile isSpace
  match place.rest with
  | '!' :: rest =>
    let name := rest.takeWhile isNameChar
    let isClosed := (rest.drop name.length).head? = some '!'
    if !name.isEmpty && !isClosed then none
    else
      let whole := '!' :: name ++ if isClosed then ['!'] else []
      let place := place.skip whole.length
      if !place.rest.head?.any isSpace then none
      else
        let (suffix, place) ← suffix? true (place.skipWhile isSpace)
        if suffix.isEmpty || !endsToken place.rest then none
        else return (handle (String.ofList whole) suffix, place)
  | _ => none

/-- A line that begins with a percent sign. -/
def directive? (st : State) : Option State := do
  let st ← (st.closeTo 0).dropCandidate?
  let place := st.place.skip 1
  let name := place.rest.takeWhile isNameChar
  let place := place.skip name.length
  if !endsToken place.rest then none
  else
    let (token, place) ←
      if name = ['Y', 'A', 'M', 'L'] then version? place
      else if name = ['T', 'A', 'G'] then handle? place
      else none
    return (st.push token).goOn (← place.behindLine?) false

/-! ### Scalars -/

/-- A scalar below a bar or an angle. -/
def block? (st : State) (isFolded : Bool) : Option State := do
  let st ← st.dropCandidate?
  let (s, place) ← Yaml.block? isFolded st.margin st.place
  return (st.push (scalar (if isFolded then .quoted else .literal) s)).goOn place true

/-- A scalar in quotes. -/
def quoted? (st : State) (read : Place → Option (String × Place)) : Option State := do
  let st ← st.keepCandidate?
  let (s, place) ← read st.place
  return (st.push (scalar .quoted s)).goOn place false

/-- A scalar without quotes. -/
def plain? (st : State) : Option State := do
  let st ← st.keepCandidate?
  let (s, place, isBroken) ← Yaml.plain? st.inFlow st.margin st.place
  return (st.push (scalar .plain s)).goOn place isBroken

/-! ### Any token -/

/-- Whether a sign at a place stands alone, as it must outside brackets and braces. -/
def isSign (st : State) (rest : List Char) : Bool :=
  st.inFlow || endsToken rest

/-- The token that begins with `c`. -/
def token? (st : State) (c : Char) (rest : List Char) : Option State :=
  if st.place.column = 0 && c = '%' then st.directive?
  else if st.place.atMark '-' then st.border? documentStart
  else if st.place.atMark '.' then st.border? documentEnd
  else if c = '[' then st.openFlow? flowList
  else if c = '\x7b' then st.openFlow? flowRecord
  else if c = ']' then st.closeFlow? flowListEnd
  else if c = '\x7d' then st.closeFlow? flowRecordEnd
  else if c = ',' then st.comma?
  else if c = '-' && endsToken rest then st.item?
  else if c = '?' && st.isSign rest then st.key?
  else if c = ':' && st.isSign rest then st.value?
  else if c = '*' then st.named? mention
  else if c = '&' then st.named? anchor
  else if c = '!' then st.tagged?
  else if c = '|' && !st.inFlow then st.block? false
  else if c = '>' && !st.inFlow then st.block? true
  else if c.toNat = 0x27 then st.quoted? singleQuoted?
  else if c = '"' then st.quoted? doubleQuoted?
  else if startsPlain st.inFlow st.place.rest then st.plain?
  else none

/-- The tokens of a text in order; `fuel` bounds their number. -/
def tokens? : Nat → State → Option (List Token)
  | 0, _ => none
  | fuel + 1, st => do
    let st ← st.toToken?
    match st.place.rest with
    | [] => return (← (st.closeTo 0).dropCandidate?).found.reverse
    | c :: rest => tokens? fuel (← st.token? c rest)

end State

/-- The tokens of a YAML text. -/
def scan? (s : String) : Option (List Token) :=
  let cs := s.toList
  let cs := if cs.head? = some (Char.ofNat 0xFEFF) then cs.drop 1 else cs
  if cs.all isAllowed then
    State.tokens? (cs.length + 2) { place := { rest := unifyLineEnds cs } }
  else none

end Token

end Sift.Yaml
