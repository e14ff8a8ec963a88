import Sift.Pattern.Form

/-!
# Size of automata

A regular expression is run as an automaton on bytes, one that reads a text forwards and one that
reads it backwards. `Form.automatonSize` is the number of bytes that such an automaton takes,
where each state takes `stateSize` bytes, each range of bytes that one of several transitions is
for `rangeSize`, and each state that one may go on to without reading `linkSize`.
-/

namespace Sift.Pattern

open Text (Ranges)

/-- The bytes that a state takes. -/
def stateSize : Nat := 32

/-- The bytes that a transition for a range of bytes takes beside its state. -/
def rangeSize : Nat := 8

/-- The bytes that a transition without reading takes beside its state. -/
def linkSize : Nat := 4

/-! ### Characters as bytes -/

/-- A range of bytes. -/
abbrev ByteRange : Type := Nat × Nat

/-- The bytes of a code point. -/
def bytesOf (n : Nat) : List Nat :=
  if n < 0x80 then [n]
  else if n < 0x800 then [0xC0 + n / 64, 0x80 + n % 64]
  else if n < 0x10000 then [0xE0 + n / 4096, 0x80 + n / 64 % 64, 0x80 + n % 64]
  else [0xF0 + n / 262144, 0x80 + n / 4096 % 64, 0x80 + n / 64 % 64, 0x80 + n % 64]

/-- A range cut behind `last`, if it goes beyond. -/
def cutBehind (last : Nat) (range : Nat × Nat) : Ranges :=
  if range.1 ≤ last && last < range.2 then [(range.1, last), (last + 1, range.2)] else [range]

/-- A range without the code points of halves of characters. -/
def withoutHalves (range : Nat × Nat) : Ranges :=
  [(range.1, min range.2 0xD7FF), (max range.1 0xE000, range.2)].filter fun r => r.1 ≤ r.2

/-- A range cut so that each part holds only whole blocks of `size` code points, or part of one
block. -/
def cutBlocks (size : Nat) (range : Nat × Nat) : Ranges :=
  let cut (range : Nat × Nat) : Ranges :=
    if range.1 / size = range.2 / size || range.2 % size = size - 1 then [range]
    else cutBehind (range.2 - range.2 % size - 1) range
  if range.1 / size = range.2 / size || range.1 % size = 0 then cut range
  else
    let last := range.1 - range.1 % size + size - 1
    (range.1, last) :: cut (last + 1, range.2)

/-- The sequences of ranges of bytes that the characters in a range take. -/
def byteRanges (range : Nat × Nat) : List (List ByteRange) :=
  let sameWidth := (((withoutHalves range).flatMap (cutBehind 0x7F)).flatMap
    (cutBehind 0x7FF)).flatMap (cutBehind 0xFFFF)
  let blocks := sameWidth.flatMap fun range =>
    if range.2 < 0x80 then [range]
    else ((cutBlocks 64 range).flatMap (cutBlocks 4096)).flatMap (cutBlocks 262144)
  blocks.map fun range => (bytesOf range.1).zip (bytesOf range.2)

/-- Some sequences of which those that begin alike stand together, by their beginnings. -/
def branches {α : Type} [BEq α] : List (List α) → List (α × List (List α))
  | [] => []
  | [] :: rest => branches rest
  | (a :: tail) :: rest =>
    match branches rest with
    | (b, tails) :: more =>
      if a == b then (a, tail :: tails) :: more else (a, [tail]) :: (b, tails) :: more
    | [] => [(a, [tail])]

/-! ### Classes -/

/-- What may follow in each state of an automaton that reads some sequences forwards; `fuel`
bounds their length. -/
def statesOf : Nat → List (List ByteRange) → List (List (List ByteRange))
  | 0, _ => []
  | fuel + 1, sequences =>
    if sequences.all List.isEmpty then []
    else sequences :: (branches sequences).flatMap fun branch => statesOf fuel branch.2

/-- The number of different beginnings of some sequences. -/
def beginnings : Nat → List (List ByteRange) → Nat
  | 0, _ => 0
  | fuel + 1, sequences =>
    (branches sequences).foldr (fun branch n => 1 + beginnings fuel branch.2 + n) 0

/-- The size of what reads one character of a class. Forwards, states with the same continuations
are one; backwards, a state is reached by one range of bytes only. -/
def classSize (backward : Bool) (ranges : Ranges) : Nat :=
  if ranges.all fun range => range.2 < 0x80 then 2 * stateSize + ranges.length * rangeSize
  else
    let sequences := ranges.flatMap byteRanges
    if backward then
      2 * stateSize + sequences.length * linkSize + beginnings 4 sequences * stateSize
    else
      let states := (statesOf 4 sequences).eraseDups
      stateSize
        + states.foldr (fun state n => stateSize + (branches state).length * rangeSize + n) 0

/-! ### Choices between texts -/

/-- Some texts cut at those that are empty. -/
def cutAtEnds : List (List Nat) → List (List (List Nat))
  | [] => [[]]
  | text :: rest =>
    match cutAtEnds rest with
    | [] => [[text]]
    | texts :: more => if text.isEmpty then [] :: texts :: more else (text :: texts) :: more

/-- The texts without those that only repeat that a text ends before any goes on. -/
def dropRepeatedEnd : List (List Nat) → List (List Nat)
  | [] :: rest => [] :: rest.dropWhile List.isEmpty
  | texts => texts

/-- The texts with the given first byte, without it. -/
def tailsOf (byte : Nat) (texts : List (List Nat)) : List (List Nat) :=
  texts.filterMap fun text =>
    match text with
    | b :: tail => if b = byte then some tail else none
    | [] => none

/-- The size of what reads one of several texts, in which the earlier ones take precedence; `fuel`
bounds their length. -/
def textsSize : Nat → List (List Nat) → Nat
  | 0, _ => 0
  | fuel + 1, texts =>
    let runs := cutAtEnds (dropRepeatedEnd texts)
    let sizes := runs.map fun run =>
      let firsts := (run.filterMap List.head?).eraseDups
      let below := firsts.map fun byte =>
        let tails := tailsOf byte run
        if tails.all List.isEmpty then 0 else textsSize fuel tails
      let below := below.foldr (· + ·) 0
      match firsts with
      | [] => 0
      | [_] => linkSize + stateSize + below
      | _ => linkSize + stateSize + firsts.length * rangeSize + below
    stateSize + (runs.length - 1) * linkSize + sizes.foldr (· + ·) 0

namespace Form

/-- The text that a form matches, if it is one. -/
def literal? : Form → Option (List Char)
  | literal cs => some cs
  | _ => none

/-- The size of what reads one of several texts, of which the last bytes come first if they are
read backwards. -/
def choiceOfTexts (backward : Bool) (texts : List (List Char)) : Nat :=
  let texts := texts.map fun cs => cs.flatMap fun c => bytesOf c.toNat
  let texts := if backward then texts.map List.reverse else texts
  stateSize + textsSize ((texts.map List.length).foldl max 0 + 1) texts

/-- The size of a form with the given size that is repeated. -/
def repeatedSize (low : Nat) (high : Option Nat) (isConsuming : Bool) (size : Nat) : Nat :=
  match high with
  | none =>
    if low = 0 && !isConsuming then size + 3 * stateSize + 4 * linkSize
    else max low 1 * size + stateSize + 2 * linkSize
  | some high =>
    if low = 0 && high = 1 then size + 2 * stateSize + 2 * linkSize
    else if low = high then low * size
    else
      (if low = 0 then stateSize else low * size) + stateSize
        + (high - low) * (size + stateSize + 2 * linkSize)

mutual

/-- The size of what reads a form, where the groups that capture need states of their own only
forwards. -/
def size (backward : Bool) : Form → Nat
  | empty => stateSize
  | literal cs => byteCount cs * stateSize
  | oneOf ranges => classSize backward ranges
  | assertion _ => stateSize
  | repetition low high _ inner =>
    repeatedSize low high (inner.minLength.any (0 < ·)) (inner.size backward)
  | capture _ inner => inner.size backward + if backward then 0 else 2 * stateSize
  | sequence parts => totalSize backward parts
  | choice alternatives =>
    match alternatives.mapM literal? with
    | some texts => choiceOfTexts backward texts
    | none =>
      totalSize backward alternatives + 2 * stateSize + alternatives.length * linkSize

/-- The sum of the sizes of some forms. -/
def totalSize (backward : Bool) : List Form → Nat
  | [] => 0
  | part :: rest => part.size backward + totalSize backward rest

end

/-! ### Anchors -/

mutual

/-- Whether a form matches only where an assertion holds at its start. -/
def startsWith (a : Assertion) : Form → Bool
  | assertion b => a = b
  | repetition low _ _ inner => 0 < low && inner.startsWith a
  | capture _ inner => inner.startsWith a
  | sequence parts => anyStartsWith a parts
  | choice alternatives => allStartWith a alternatives
  | _ => false

/-- Whether an assertion holds before the first of some parts that may match a character. -/
def anyStartsWith (a : Assertion) : List Form → Bool
  | [] => false
  | part :: rest => part.startsWith a || (part.maxLength = some 0 && anyStartsWith a rest)

/-- Whether an assertion holds before each of some alternatives. -/
def allStartWith (a : Assertion) : List Form → Bool
  | [] => true
  | part :: rest => part.startsWith a && allStartWith a rest

end

mutual

/-- Whether a form matches only where an assertion holds at its end. -/
def endsWith (a : Assertion) : Form → Bool
  | assertion b => a = b
  | repetition low _ _ inner => 0 < low && inner.endsWith a
  | capture _ inner => inner.endsWith a
  | sequence parts => (lastEndsWith a parts).1
  | choice alternatives => allEndWith a alternatives
  | _ => false

/-- Whether an assertion holds behind the last of some parts that may match a character, and
whether there is no such part. -/
def lastEndsWith (a : Assertion) : List Form → Bool × Bool
  | [] => (false, true)
  | part :: rest =>
    let (found, isEdge) := lastEndsWith a rest
    (found || (isEdge && part.endsWith a), isEdge && part.maxLength = some 0)

/-- Whether an assertion holds behind each of some alternatives. -/
def allEndWith (a : Assertion) : List Form → Bool
  | [] => true
  | part :: rest => part.endsWith a && allEndWith a rest

end

/-- Whether an automaton need look for a form only at one end of a text. -/
def isAnchored (backward : Bool) (form : Form) : Bool :=
  if backward then form.endsWith .textEnd else form.startsWith .textStart

/-- The size of the part of an automaton that passes over what is before a match. -/
def searchSize (backward : Bool) (form : Form) : Nat :=
  if form.isAnchored backward then stateSize else 3 * stateSize + rangeSize + 2 * linkSize

/-- The size of the automaton for a form, which captures the whole match when it reads
forwards. -/
def automatonSize (backward : Bool) (form : Form) : Nat :=
  form.searchSize backward + (capture 0 form).size backward + stateSize

end Form

end Sift.Pattern
