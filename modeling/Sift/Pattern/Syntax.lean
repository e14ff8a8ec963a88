import Sift.Pattern.Automaton
import Sift.Text.Word

/-!
# Syntax of regular expressions

`Pattern.checkSyntax` says whether a text is a regular expression, or else what is wrong with it.
What is read is kept as its `Form` together with how deeply it is nested, since both nesting and
the automata that the expression is run as are limited in size.
-/

namespace Sift.Pattern

open Text (Ranges)

/-! ### Faults -/

/-- What is wrong with the syntax of a regular expression. -/
inductive SyntaxFault where
  | groupUnclosed | groupUnopened
  | groupNameUnclosed | groupNameEmpty | groupNameInvalid | groupNameDuplicate
  | classUnclosed | classRangeInvalid | classRangeLiteral | classEscapeInvalid
  | repetitionMissing | repetitionInvalid | repetitionEmpty | repetitionUnclosed
  | decimalInvalid
  | escapeUnrecognized | escapeUnfinished
  | nestedTooDeeply
  | tooLarge
deriving DecidableEq

/-- How deeply groups, classes, repetitions and sequences may be nested. -/
def nestLimit : Nat := 250

/-- How large an expression may be, in bytes of its automaton. -/
def sizeLimit : Nat := 10485760

/-- The wording of a fault. -/
def SyntaxFault.message : SyntaxFault → String
  | groupUnclosed => "unclosed group"
  | groupUnopened => "unopened group"
  | groupNameUnclosed => "unclosed capture group name"
  | groupNameEmpty => "empty capture group name"
  | groupNameInvalid => "invalid capture group character"
  | groupNameDuplicate => "duplicate capture group name"
  | classUnclosed => "unclosed character class"
  | classRangeInvalid => "invalid character class range, the start must be <= the end"
  | classRangeLiteral => "invalid range boundary, must be a literal"
  | classEscapeInvalid => "invalid escape sequence found in character class"
  | repetitionMissing => "repetition operator missing expression"
  | repetitionInvalid => "invalid repetition count range, the start must be <= the end"
  | repetitionEmpty => "repetition quantifier expects a valid decimal"
  | repetitionUnclosed => "unclosed counted repetition"
  | decimalInvalid => "decimal literal invalid"
  | escapeUnrecognized => "unrecognized escape sequence"
  | escapeUnfinished => "incomplete escape sequence, reached end of pattern prematurely"
  | nestedTooDeeply =>
    "exceed the maximum number of nested parentheses/brackets (" ++ toString nestLimit ++ ")"
  | tooLarge => "Compiled regex exceeds size limit of " ++ toString sizeLimit ++ " bytes."

/-! ### Nesting -/

/-- Something that has been read, and how deeply it is nested. -/
structure Nested (α : Type) where
  depth : Nat
  value : α

namespace Nested

/-- Something that has nothing inside it. -/
def flat {α : Type} (value : α) : Nested α :=
  { depth := 0, value := value }

/-- Something that stands around what has been read. -/
def around {α β : Type} (make : α → β) (inner : Nested α) : Nested β :=
  { depth := inner.depth + 1, value := make inner.value }

/-- Several things together; a single one is nested no deeper for it. -/
def together {α β : Type} (make : List α → β) (parts : List (Nested α)) : Nested β :=
  { depth := (parts.map depth).foldl max 0 + if parts.length < 2 then 0 else 1
    value := make (parts.map value) }

end Nested

/-! ### Escapes -/

/-- What a backslash and the character behind it stand for. -/
inductive Escape where
  | literal (c : Char)
  | oneOf (ranges : Ranges)
  | assertion (a : Assertion)

/-- The class of characters that a letter behind a backslash names. -/
def namedClass? (c : Char) : Option Ranges :=
  if c = 'd' then some Text.digits
  else if c = 's' then some Text.spaces
  else if c = 'w' then some Text.wordChars
  else if c = 'D' then some Text.digits.complement
  else if c = 'S' then some Text.spaces.complement
  else if c = 'W' then some Text.wordChars.complement
  else none

/-- The escape whose backslash is behind us, and the text behind it. -/
def readEscape : List Char → Except SyntaxFault (Escape × List Char)
  | [] => .error .escapeUnfinished
  | c :: rest =>
    match namedClass? c with
    | some ranges => .ok (.oneOf ranges, rest)
    | none =>
      if c = 'n' then .ok (.literal '\n', rest)
      else if c = 't' then .ok (.literal '\t', rest)
      else if c = 'r' then .ok (.literal '\r', rest)
      else if c = '<' then .ok (.assertion .wordStart, rest)
      else if c = '>' then .ok (.assertion .wordEnd, rest)
      else if c.toNat < 128 ∧ !c.isAlphanum then .ok (.literal c, rest)
      else .error .escapeUnrecognized

/-! ### Classes in brackets -/

/-- The class of one character. -/
def singleton (c : Char) : Ranges :=
  [(c.toNat, c.toNat)]

/-- The classes of ASCII characters that may stand in brackets by name. -/
def asciiClasses : List (String × Ranges) :=
  [("alnum", [(0x30, 0x39), (0x41, 0x5A), (0x61, 0x7A)]),
    ("alpha", [(0x41, 0x5A), (0x61, 0x7A)]),
    ("ascii", [(0x00, 0x7F)]),
    ("blank", [(0x09, 0x09), (0x20, 0x20)]),
    ("cntrl", [(0x00, 0x1F), (0x7F, 0x7F)]),
    ("digit", [(0x30, 0x39)]),
    ("graph", [(0x21, 0x7E)]),
    ("lower", [(0x61, 0x7A)]),
    ("print", [(0x20, 0x7E)]),
    ("punct", [(0x21, 0x2F), (0x3A, 0x40), (0x5B, 0x60), (0x7B, 0x7E)]),
    ("space", [(0x09, 0x0D), (0x20, 0x20)]),
    ("upper", [(0x41, 0x5A)]),
    ("word", [(0x30, 0x39), (0x41, 0x5A), (0x5F, 0x5F), (0x61, 0x7A)]),
    ("xdigit", [(0x30, 0x39), (0x41, 0x46), (0x61, 0x66)])]

/-- A class, or all other characters if it is negated. -/
def negatedIf (negated : Bool) (ranges : Ranges) : Ranges :=
  if negated then ranges.complement else ranges

/-- A class such as `[:alpha:]`, whose opening bracket is behind us, and the text behind it. -/
def readAsciiClass? : List Char → Option (Ranges × List Char)
  | ':' :: rest =>
    let negated := rest.head? = some '^'
    let rest := if negated then rest.drop 1 else rest
    match rest.span (· ≠ ':') with
    | (name, ':' :: ']' :: behind) =>
      (asciiClasses.lookup (String.ofList name)).map fun ranges =>
        (negatedIf negated ranges, behind)
    | _ => none
  | _ => none

/-- One end of a range in brackets, and the text behind it. -/
def readMember (cs : List Char) : Except SyntaxFault (Escape × List Char) :=
  match cs with
  | [] => .error .classUnclosed
  | c :: rest => if c = '\\' then readEscape rest else .ok (.literal c, rest)

/-- The characters of a character or named class that stands in brackets. -/
def memberRanges : Escape → Except SyntaxFault Ranges
  | .literal c => .ok (singleton c)
  | .oneOf ranges => .ok ranges
  | .assertion _ => .error .classEscapeInvalid

/-- The character at an end of a range. -/
def rangeEnd : Escape → Except SyntaxFault Char
  | .literal c => .ok c
  | _ => .error .classRangeLiteral

/-- A character, a named class or a range in brackets, and the text behind it. A dash before the
closing bracket or before another dash makes no range. -/
def readRange (cs : List Char) : Except SyntaxFault (Ranges × List Char) := do
  let (first, rest) ← readMember cs
  match rest with
  | [] => .error .classUnclosed
  | '-' :: behind =>
    if behind.head? = some ']' ∨ behind.head? = some '-' then
      return (← memberRanges first, rest)
    else
      let (last, rest) ← readMember behind
      let low ← rangeEnd first
      let high ← rangeEnd last
      if low ≤ high then return ([(low.toNat, high.toNat)], rest)
      else .error .classRangeInvalid
  | _ => return (← memberRanges first, rest)

/-- An operator between two sets of characters. -/
inductive SetOperator where
  | intersection | difference | symmetricDifference

/-- The set that an operator makes of two. -/
def SetOperator.apply : SetOperator → Ranges → Ranges → Ranges
  | intersection => Ranges.inter
  | difference => Ranges.diff
  | symmetricDifference => Ranges.symmDiff

/-- The members of a class between its brackets or set operators, the last one first. -/
abbrev Members : Type := List (Nested Ranges)

/-- The set before a set operator, and the operator. -/
abbrev LeftSide : Type := Nested Ranges × SetOperator

/-- The set made of some members and of what stands before them. -/
def operands (left : Option LeftSide) (members : Members) : Nested Ranges :=
  let right := Nested.together (List.foldl Ranges.union []) members
  match left with
  | none => right
  | some (left, operator) =>
    { depth := max left.depth right.depth + 1
      value := operator.apply left.value right.value }

/-- The dashes a class may begin with, and the text behind them. -/
def leadingDashes (cs : List Char) : Members × List Char :=
  ((cs.takeWhile (· = '-')).map fun c => .flat (singleton c), cs.dropWhile (· = '-'))

/-- What stands at the beginning of a class whose bracket is behind us: a circumflex, which
negates it, dashes, and if there are none, a closing bracket that stands for itself. -/
def classStart (cs : List Char) : Bool × Members × List Char :=
  let negated := cs.head? = some '^'
  match leadingDashes (if negated then cs.drop 1 else cs) with
  | ([], ']' :: rest) => (negated, [.flat (singleton ']')], rest)
  | found => (negated, found)

/-- The members of a class up to its closing bracket; `members` holds those since the last set
operator, and `left` is what stands before it. -/
def readClass : Nat → Option LeftSide → Members → List Char →
    Except SyntaxFault (Nested Ranges × List Char)
  | 0, _, _, _ => .error .classUnclosed
  | fuel + 1, left, members, cs =>
    match cs with
    | [] => .error .classUnclosed
    | '[' :: rest =>
      match readAsciiClass? rest with
      | some (ranges, rest) => readClass fuel left (.flat ranges :: members) rest
      | none => do
        let (negated, start, rest) := classStart rest
        let (inner, rest) ← readClass fuel none start rest
        readClass fuel left (inner.around (negatedIf negated) :: members) rest
    | ']' :: rest => .ok (operands left members, rest)
    | '&' :: '&' :: rest => readClass fuel (some (operands left members, .intersection)) [] rest
    | '-' :: '-' :: rest => readClass fuel (some (operands left members, .difference)) [] rest
    | '~' :: '~' :: rest =>
      readClass fuel (some (operands left members, .symmetricDifference)) [] rest
    | cs => do
      let (ranges, rest) ← readRange cs
      readClass fuel left (.flat ranges :: members) rest

/-- A class whose opening bracket is behind us, and the text behind it. -/
def readBrackets (cs : List Char) : Except SyntaxFault (Nested Form × List Char) := do
  let (negated, start, rest) := classStart cs
  let (inner, rest) ← readClass (cs.length + 1) none start rest
  return (inner.around fun ranges => .ofClass (negatedIf negated ranges), rest)

/-! ### Groups and repetitions -/

/-- Whether a character may stand in the name of a group. -/
def isNameChar (first : Bool) (c : Char) : Bool :=
  if first then c = '_' || Text.isAlphabetic c
  else c = '_' || c = '.' || c = '[' || c = ']' || Text.isAlphanumeric c

/-- The name of a group up to its closing angle bracket, and the text behind that. -/
def readName (first : Bool) : List Char → Except SyntaxFault (List Char × List Char)
  | [] => .error .groupNameUnclosed
  | c :: rest =>
    if c = '>' then .ok ([], rest)
    else if isNameChar first c then do
      let (name, rest) ← readName false rest
      return (c :: name, rest)
    else .error .groupNameInvalid

/-- The groups that have been opened and capture what they match, the last one first, with their
names if they have any. -/
abbrev Groups : Type := List (Option (List Char))

/-- What stands between the parenthesis that opens a group and its contents: the groups with this
one, unless it does not capture. -/
def groupStart (groups : Groups) : List Char → Except SyntaxFault (Option Groups × List Char)
  | '?' :: ':' :: rest => .ok (none, rest)
  | '?' :: '<' :: rest => do
    if rest.isEmpty then .error .groupNameUnclosed
    else
      let (name, rest) ← readName true rest
      if name.isEmpty then .error .groupNameEmpty
      else if groups.contains (some name) then .error .groupNameDuplicate
      else return (some (some name :: groups), rest)
  | '?' :: _ => .error .repetitionMissing
  | rest => .ok (some (none :: groups), rest)

/-- The form of a group with the given contents, which captures if `groups` are the groups with
this one. -/
def groupForm (groups : Option Groups) (inner : Form) : Form :=
  match groups with
  | some groups => .capture groups.length inner
  | none => inner

/-- The decimal a text begins with, if there is one, and the text behind it. -/
def readDecimal (cs : List Char) : Except SyntaxFault (Option Nat × List Char) :=
  match cs.span Char.isDigit with
  | ([], rest) => .ok (none, rest)
  | (digits, rest) =>
    let n := digits.foldl (fun n c => 10 * n + (c.toNat - 48)) 0
    if n < UInt32.size then .ok (some n, rest) else .error .decimalInvalid

/-- A count that has to be there. -/
def needed : Option Nat → Except SyntaxFault Nat
  | some n => .ok n
  | none => .error .repetitionEmpty

/-- The text behind the question mark of a lazy repetition, and whether there is one. -/
def readLazy (cs : List Char) : Bool × List Char :=
  match cs with
  | '?' :: rest => (true, rest)
  | _ => (false, cs)

/-- The counts behind an opening brace, and the text behind the closing one. A fault of the first
count is told only where the count is used. -/
def readCounts (cs : List Char) :
    Except SyntaxFault ((Nat × Option Nat) × List Char) := do
  if cs.isEmpty then .error .repetitionUnclosed
  else
    let behind := cs.dropWhile Char.isDigit
    let first := readDecimal cs >>= fun found => needed found.1
    let (counts, rest) ← match behind with
      | [] => .error .repetitionUnclosed
      | ',' :: [] => .error .repetitionUnclosed
      | ',' :: '}' :: rest => do
        let low ← first
        pure ((low, none), '}' :: rest)
      | ',' :: rest => do
        let low ← first
        let (found, rest) ← readDecimal rest
        let high ← needed found
        pure ((low, some high), rest)
      | rest => do
        let n ← first
        pure ((n, some n), rest)
    match rest with
    | '}' :: rest => return (counts, rest)
    | _ => .error .repetitionUnclosed

/-- The parts of a sequence with the last one, which comes first here, repeated. -/
def repeatLast (low : Nat) (high : Option Nat) (isLazy : Bool) :
    List (Nested Form) → Except SyntaxFault (List (Nested Form))
  | [] => .error .repetitionMissing
  | part :: parts => .ok (part.around (.ofRepetition low high isLazy) :: parts)

/-- The counts that a repetition sign stands for. -/
def signCounts (c : Char) : Nat × Option Nat :=
  if c = '?' then (0, some 1) else if c = '*' then (0, none) else (1, none)

/-- A part that is neither a group, a class nor a repetition, and the text behind it. -/
def readPrimitive (c : Char) (rest : List Char) : Except SyntaxFault (Form × List Char) :=
  if c = '\\' then do
    match ← readEscape rest with
    | (.literal c, rest) => return (.literal [c], rest)
    | (.oneOf ranges, rest) => return (.ofClass ranges, rest)
    | (.assertion a, rest) => return (.assertion a, rest)
  else if c = '.' then .ok (.ofClass (singleton '\n').complement, rest)
  else if c = '^' then .ok (.assertion .textStart, rest)
  else if c = '$' then .ok (.assertion .textEnd, rest)
  else .ok (.literal [c], rest)

/-! ### Expressions -/

/-- An alternative with the given parts, the last one first. -/
def sequenceOf (parts : List (Nested Form)) : Nested Form :=
  .together .ofParts parts.reverse

/-- An expression or the contents of a group, given the parts of the last alternative and the
alternatives before it, the last ones first. -/
def closing (parts done : List (Nested Form)) : Nested Form :=
  .together .ofAlternatives (sequenceOf parts :: done).reverse

/-- The alternatives of an expression or group. `parts` are the parts of the present alternative,
the last one first, and `done` are the alternatives before it. A group ends at its closing
parenthesis, the whole expression at the end of the text. -/
def readAlternatives : Nat → Bool → Groups → List (Nested Form) → List (Nested Form) →
    List Char → Except SyntaxFault (Nested Form × Groups × List Char)
  | 0, _, _, _, _, _ => .error .groupUnclosed
  | fuel + 1, inGroup, groups, parts, done, cs =>
    match cs with
    | [] => if inGroup then .error .groupUnclosed else .ok (closing parts done, groups, [])
    | c :: rest =>
      if c = '(' then do
        let (opened, rest) ← groupStart groups rest
        let (inner, groups, rest) ←
          readAlternatives fuel true (opened.getD groups) [] [] rest
        readAlternatives fuel inGroup groups (inner.around (groupForm opened) :: parts) done rest
      else if c = ')' then
        if inGroup then .ok (closing parts done, groups, rest) else .error .groupUnopened
      else if c = '|' then
        readAlternatives fuel inGroup groups [] (sequenceOf parts :: done) rest
      else if c = '[' then do
        let (part, rest) ← readBrackets rest
        readAlternatives fuel inGroup groups (part :: parts) done rest
      else if c = '?' ∨ c = '*' ∨ c = '+' then do
        let (isLazy, rest) := readLazy rest
        let parts ← repeatLast (signCounts c).1 (signCounts c).2 isLazy parts
        readAlternatives fuel inGroup groups parts done rest
      else if c = '\x7b' then do
        if parts.isEmpty then .error .repetitionMissing
        else
          let ((low, high), rest) ← readCounts rest
          let (isLazy, rest) := readLazy rest
          if high.all (low ≤ ·) then
            let parts ← repeatLast low high isLazy parts
            readAlternatives fuel inGroup groups parts done rest
          else .error .repetitionInvalid
      else do
        let (part, rest) ← readPrimitive c rest
        readAlternatives fuel inGroup groups (.flat part :: parts) done rest

/-- Whether the automata for a form fit the limit, both forwards and backwards. -/
def fits (form : Form) : Bool :=
  form.automatonSize false ≤ sizeLimit && form.automatonSize true ≤ sizeLimit

/-- Whether a text is a regular expression within the limits. -/
def checkSyntax (cs : List Char) : Except SyntaxFault Unit := do
  let (whole, _, _) ← readAlternatives (cs.length + 1) false [] [] [] cs
  if nestLimit < whole.depth then .error .nestedTooDeeply
  else if fits whole.value then .ok ()
  else .error .tooLarge

end Sift.Pattern
