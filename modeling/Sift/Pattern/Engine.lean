import Sift.Pattern.Syntax

/-!
# Patterns for the engine

A pattern of a query is a regular expression that may match anywhere in a term. The search engine
has a dialect of its own: an expression matches the whole term, there are neither anchors nor
`\d`, `\s` and `\w`, the case of letters always matters, and some more characters are operators.
`Pattern.toEngine` writes a pattern in that dialect, or says why it cannot.

The alternatives at the top of a pattern are converted one by one, because each has anchors of
its own. An alternative is converted from left to right in a `Mode`, which says what the next
character belongs to.
-/

namespace Sift.Pattern

/-! ### Faults -/

/-- Why a pattern cannot be written for the engine. -/
inductive Fault where
  | innerAnchor
  | trailingBackslash
  | wordBoundary
  | backReference
  | unsupportedEscape (c : Char)
  | unterminatedBrackets
  | negatedShorthand (c : Char)
  | unsupportedBracketEscape (c : Char)
  | unterminatedName
  | lookAround
  | inlineFlags
  | malformedRepetition
  | lazyQuantifier
  | badSyntax (fault : SyntaxFault)
deriving DecidableEq

/-- The wording of a fault. -/
def Fault.message : Fault → String
  | innerAnchor => "anchors are only supported at the start or end of a pattern"
  | trailingBackslash => "pattern ends with a backslash"
  | wordBoundary => "word boundaries are not supported"
  | backReference => "back-references are not supported"
  | unsupportedEscape c => "unsupported escape \\" ++ c.toString
  | unterminatedBrackets => "unterminated bracket expression"
  | negatedShorthand c =>
    "negated shorthand \\" ++ c.toString ++ " is not supported inside brackets"
  | unsupportedBracketEscape c => "unsupported escape \\" ++ c.toString ++ " inside brackets"
  | unterminatedName => "unterminated group name"
  | lookAround => "look-around is not supported"
  | inlineFlags => "inline flags are not supported"
  | malformedRepetition => "malformed counted repetition"
  | lazyQuantifier => "lazy quantifiers are not supported"
  | badSyntax fault => fault.message

/-! ### Characters -/

/-- The members of a bracket expression that `\s` stands for. -/
def spaceMembers : List Char := [' ', '\n', '\t', '\r']

/-- The members of a bracket expression that `\d` stands for. -/
def digitMembers : List Char := ['0', '-', '9']

/-- The members of a bracket expression that `\w` stands for. -/
def wordMembers : List Char := ['A', '-', 'Z', 'a', '-', 'z', '_']

/-- The characters that are operators for the engine only. -/
def reserved : List Char := ['"', '#', '@', '&', '<', '>', '~']

/-- A letter of ASCII in the other case. -/
def otherCase (c : Char) : Char :=
  if c.isLower then c.toUpper else c.toLower

/-- A character outside brackets that stands for itself. -/
def literalPiece (ignoreCase : Bool) (c : Char) : List Char :=
  if c.isAlpha then if ignoreCase then ['[', c, otherCase c, ']'] else [c]
  else if reserved.contains c then ['\\', c]
  else [c]

/-- The brackets around the members of a class. -/
def bracketed (negated : Bool) (members : List Char) : List Char :=
  '[' :: (if negated then ['^'] else []) ++ members ++ [']']

/-- What a backslash and `c` stand for outside brackets. -/
def escapePiece (c : Char) : Except Fault (List Char) :=
  if c = 's' then .ok (bracketed false spaceMembers)
  else if c = 'd' then .ok (bracketed false digitMembers)
  else if c = 'w' then .ok (bracketed false wordMembers)
  else if c = 'S' then .ok (bracketed true spaceMembers)
  else if c = 'D' then .ok (bracketed true digitMembers)
  else if c = 'W' then .ok (bracketed true wordMembers)
  else if c = 'n' then .ok ['\n']
  else if c = 't' then .ok ['\t']
  else if c = 'r' then .ok ['\r']
  else if c = '/' then .ok ['/']
  else if c = 'b' ∨ c = 'B' then .error .wordBoundary
  else if c.isDigit ∧ c ≠ '0' then .error .backReference
  else if c.isAlphanum then .error (.unsupportedEscape c)
  else .ok ['\\', c]

/-- What a backslash and `c` stand for in brackets. -/
def bracketEscapePiece (c : Char) : Except Fault (List Char) :=
  if c = 's' then .ok spaceMembers
  else if c = 'd' then .ok digitMembers
  else if c = 'w' then .ok wordMembers
  else if c = 'S' ∨ c = 'D' ∨ c = 'W' then .error (.negatedShorthand c)
  else if c = 'n' then .ok ['\n']
  else if c = 't' then .ok ['\t']
  else if c = 'r' then .ok ['\r']
  else if c = '/' then .ok ['/']
  else if c.isAlphanum then .error (.unsupportedBracketEscape c)
  else .ok ['\\', c]

/-- A range in brackets between two letters, and the same range in the other case if both letters
have the same one. -/
def rangePiece (ignoreCase : Bool) (first last : Char) : List Char :=
  [first, '-', last]
    ++ if ignoreCase && first.isLower = last.isLower then
        [otherCase first, '-', otherCase last]
      else []

/-- A letter in brackets that begins no range. -/
def letterPiece (ignoreCase : Bool) (c : Char) : List Char :=
  if ignoreCase then [c, otherCase c] else [c]

/-! ### One alternative -/

/-- What the next character of an alternative belongs to: nothing in particular, a bracket
expression, the counts of a repetition, or the name of a group. -/
inductive Mode where
  | outside | brackets | counts | name
deriving DecidableEq, Repr

/-- What the end of an alternative means in each mode. -/
def atEnd : Mode → Except Fault (List Char)
  | .outside => .ok []
  | .brackets => .error .unterminatedBrackets
  | .counts => .error .malformedRepetition
  | .name => .error .unterminatedName

/-- A piece before what `rest` gives. -/
def emit (piece : List Char) (rest : Except Fault (List Char)) : Except Fault (List Char) :=
  rest.map (piece ++ ·)

/-- What `rest` gives, unless the text behind a repetition makes it a lazy one. -/
def unlessLazy (behind : List Char) (rest : Except Fault (List Char)) :
    Except Fault (List Char) :=
  if behind.head? = some '?' then .error .lazyQuantifier else rest

/-- Why a group that begins with a question mark and `c` cannot be written for the engine. -/
def groupFault (c : Option Char) : Fault :=
  if c = some '=' ∨ c = some '!' ∨ c = some '<' then .lookAround else .inlineFlags

/-- An alternative without its anchors in the dialect of the engine. -/
def convertFrom (ignoreCase : Bool) : Mode → List Char → Except Fault (List Char)
  | mode, [] => atEnd mode
  | .name, c :: rest =>
    if c = '>' then emit ['('] (convertFrom ignoreCase .outside rest)
    else convertFrom ignoreCase .name rest
  | .counts, c :: rest =>
    if c = '}' then emit ['}'] (unlessLazy rest (convertFrom ignoreCase .outside rest))
    else if c.isDigit ∨ c = ',' then emit [c] (convertFrom ignoreCase .counts rest)
    else .error .malformedRepetition
  | .brackets, c :: rest =>
    if c = ']' then emit [']'] (convertFrom ignoreCase .outside rest)
    else if c = '\\' then
      match rest with
      | [] => .error .trailingBackslash
      | d :: rest =>
        match bracketEscapePiece d with
        | .ok piece => emit piece (convertFrom ignoreCase .brackets rest)
        | .error fault => .error fault
    else if c.isAlpha then
      match rest with
      | '-' :: last :: behind =>
        if last.isAlpha then
          emit (rangePiece ignoreCase c last) (convertFrom ignoreCase .brackets behind)
        else
          emit (letterPiece ignoreCase c) (convertFrom ignoreCase .brackets ('-' :: last :: behind))
      | rest => emit (letterPiece ignoreCase c) (convertFrom ignoreCase .brackets rest)
    else emit [c] (convertFrom ignoreCase .brackets rest)
  | .outside, c :: rest =>
    if c = '\\' then
      match rest with
      | [] => .error .trailingBackslash
      | d :: rest =>
        match escapePiece d with
        | .ok piece => emit piece (convertFrom ignoreCase .outside rest)
        | .error fault => .error fault
    else if c = '[' then
      match rest with
      | '^' :: rest => emit ['[', '^'] (convertFrom ignoreCase .brackets rest)
      | rest => emit ['['] (convertFrom ignoreCase .brackets rest)
    else if c = '(' then
      match rest with
      | '?' :: ':' :: rest => emit ['('] (convertFrom ignoreCase .outside rest)
      | '?' :: '<' :: behind =>
        if behind.head? = some '=' ∨ behind.head? = some '!' then .error .lookAround
        else convertFrom ignoreCase .name behind
      | '?' :: rest => .error (groupFault rest.head?)
      | rest => emit ['('] (convertFrom ignoreCase .outside rest)
    else if c = '*' ∨ c = '+' ∨ c = '?' then
      emit [c] (unlessLazy rest (convertFrom ignoreCase .outside rest))
    else if c = '\x7b' then emit [c] (convertFrom ignoreCase .counts rest)
    else if c = '^' ∨ c = '$' then .error .innerAnchor
    else emit (literalPiece ignoreCase c) (convertFrom ignoreCase .outside rest)
termination_by _ cs => cs.length

/-- Whether the last character is a dollar sign without a backslash of its own. -/
def endsWithAnchor (cs : List Char) : Bool :=
  match cs.reverse with
  | '$' :: before => (before.takeWhile (· = '\\')).length % 2 = 0
  | _ => false

/-- The wildcard for any run of characters. -/
def anyRun : List Char := ['.', '*']

/-- An alternative in the dialect of the engine, where a wildcard stands at each end without an
anchor. -/
def convertAlternative (ignoreCase : Bool) (cs : List Char) : Except Fault (List Char) := do
  let atStart := cs.head? = some '^'
  let anchored := endsWithAnchor cs
  let body := if atStart then cs.drop 1 else cs
  let body := if anchored then body.dropLast else body
  let converted ← convertFrom ignoreCase .outside body
  if converted.isEmpty && !atStart && !anchored then return anyRun
  else
    return (if atStart then [] else anyRun) ++ converted ++ (if anchored then [] else anyRun)

/-! ### Whole patterns -/

/-- A character put before the first of several texts. -/
def consFirst (c : Char) (found : List Char × List (List Char)) :
    List Char × List (List Char) :=
  (c :: found.1, found.2)

/-- The first alternative and the others: a pattern is split at each bar that stands outside
groups, of which `depth` are open, and outside brackets. -/
def alternativesFrom : Nat → Bool → List Char → List Char × List (List Char)
  | _, _, [] => ([], [])
  | depth, inBrackets, c :: rest =>
    if c = '\\' then
      match rest with
      | [] => ([c], [])
      | d :: rest => consFirst c (consFirst d (alternativesFrom depth inBrackets rest))
    else if inBrackets then
      consFirst c (alternativesFrom depth (c ≠ ']') rest)
    else if c = '|' ∧ depth = 0 then
      let found := alternativesFrom 0 false rest
      ([], found.1 :: found.2)
    else
      let depth := if c = '(' then depth + 1 else if c = ')' then depth - 1 else depth
      consFirst c (alternativesFrom depth (c = '[') rest)

/-- The alternatives of a pattern. -/
def alternatives (cs : List Char) : List (List Char) :=
  let found := alternativesFrom 0 false cs
  found.1 :: found.2

/-- The pattern without the backslash of each escaped slash. -/
def bareSlashes : List Char → List Char
  | '\\' :: '/' :: rest => '/' :: bareSlashes rest
  | '\\' :: c :: rest => '\\' :: c :: bareSlashes rest
  | c :: rest => c :: bareSlashes rest
  | [] => []

/-- The syntax check as a check for faults. -/
def check (cs : List Char) : Except Fault Unit :=
  (checkSyntax (bareSlashes cs)).mapError .badSyntax

/-- A pattern in the dialect of the engine. -/
def convert (ignoreCase : Bool) (cs : List Char) : Except Fault (List Char) := do
  let converted ← (alternatives cs).mapM (convertAlternative ignoreCase)
  check cs
  return ['|'].intercalate converted

/-- A pattern in the dialect of the engine. -/
def toEngine (pattern : String) (ignoreCase : Bool) : Except Fault String :=
  (convert ignoreCase pattern.toList).map String.ofList

end Sift.Pattern
