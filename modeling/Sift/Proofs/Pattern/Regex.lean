import Sift.Pattern.Engine
import Sift.Proofs.Pattern.Language

/-!
# Regular expressions of a pattern

The trees of regular expressions that can be written for the engine: an `Atom` is one character of
a kind or a group, a `Sequence` is a list of atoms, each repeated or not, `Alternatives` are
sequences of which one has to match, and a `Regex` is a list of `Branch`es, which may be anchored.
What may not stand in such a tree is kept out by its type.

`Regex.text` writes a tree as a pattern, and `Regex.MatchesIn` says in which terms it matches
somewhere.
-/

namespace Sift

open Pattern

namespace Regex

/-! ### Trees -/

/-- The characters that have to be escaped to stand for themselves. -/
def metacharacters : List Char :=
  ['\\', '[', ']', '(', ')', '\x7b', '\x7d', '*', '+', '?', '.', '^', '$', '|', '/']

/-- The characters that have to be escaped in brackets. -/
def bracketMetacharacters : List Char :=
  ['[', ']', '\\', '^', '-', '&', '~']

/-- A class of characters that has a letter of its own. -/
inductive Shorthand where
  | digit | word | space
deriving DecidableEq

/-- Whether two characters are the ends of a range: both digits, both small letters or both
capital letters, and in order. -/
def isRange (first last : Char) : Bool :=
  (first.isDigit && last.isDigit || first.isLower && last.isLower || first.isUpper && last.isUpper)
    && first ≤ last

/-- What may stand in brackets. -/
inductive Member where
  | literal (c : Char) (h : c ∉ bracketMetacharacters)
  | shorthand (kind : Shorthand)
  | range (first last : Char) (h : isRange first last = true)

/-- Whether a text is the name of a group. -/
def isGroupName : List Char → Bool
  | [] => false
  | c :: rest => isNameChar true c && rest.all (isNameChar false)

/-- How a group is opened. -/
inductive GroupKind where
  | plain
  | uncaptured
  | named (name : List Char) (h : isGroupName name = true)

/-- How often an atom has to match. -/
inductive Quantifier where
  | star | plus | optional
  | exactly (n : Nat)
  | atLeast (n : Nat)
  | between (low high : Nat)

mutual

/-- A character of some kind, or a group. -/
inductive Atom where
  | literal (c : Char) (h : c ∉ metacharacters)
  | escaped (c : Char) (h : c.isAlphanum = false)
  | dot
  | shorthand (negated : Bool) (kind : Shorthand)
  | brackets (negated : Bool) (first : Member) (others : List Member)
  | group (kind : GroupKind) (inner : Alternatives)

/-- Atoms one after the other, each with its quantifier if it has one. -/
inductive Sequence where
  | nil
  | cons (atom : Atom) (quantifier : Option Quantifier) (rest : Sequence)

/-- Sequences of which one has to match. -/
inductive Alternatives where
  | last (sequence : Sequence)
  | cons (sequence : Sequence) (rest : Alternatives)

end

/-- An alternative at the top, which may be anchored at either end. -/
structure Branch where
  atStart : Bool
  body : Sequence
  atEnd : Bool

end Regex

/-- A regular expression. -/
structure Regex where
  first : Regex.Branch
  others : List Regex.Branch

namespace Regex

/-- The alternatives at the top. -/
def branches (regex : Regex) : List Branch :=
  regex.first :: regex.others

/-! ### Texts -/

/-- The letter of a class. -/
def Shorthand.letter (negated : Bool) : Shorthand → Char
  | digit => if negated then 'D' else 'd'
  | word => if negated then 'W' else 'w'
  | space => if negated then 'S' else 's'

/-- The characters of what stands in brackets. -/
def Member.chars : Member → List Char
  | literal c _ => [c]
  | shorthand kind => ['\\', kind.letter false]
  | range first last _ => [first, '-', last]

/-- The characters that open a group. -/
def GroupKind.chars : GroupKind → List Char
  | plain => ['(']
  | uncaptured => ['(', '?', ':']
  | named name _ => '(' :: '?' :: '<' :: name ++ ['>']

/-- The decimal digits of a number. -/
def digits (n : Nat) : List Char :=
  Nat.toDigits 10 n

/-- The characters of a quantifier. -/
def Quantifier.chars : Quantifier → List Char
  | star => ['*']
  | plus => ['+']
  | optional => ['?']
  | exactly n => '\x7b' :: digits n ++ ['\x7d']
  | atLeast n => '\x7b' :: digits n ++ [',', '\x7d']
  | between low high => '\x7b' :: digits low ++ ',' :: digits high ++ ['\x7d']

/-- The characters of a quantifier that may be missing. -/
def quantifierChars (quantifier : Option Quantifier) : List Char :=
  quantifier.elim [] Quantifier.chars

mutual

/-- The characters of an atom. -/
def Atom.chars : Atom → List Char
  | .literal c _ => [c]
  | .escaped c _ => ['\\', c]
  | .dot => ['.']
  | .shorthand negated kind => ['\\', kind.letter negated]
  | .brackets negated first others =>
    bracketed negated ((first :: others).flatMap Member.chars)
  | .group kind inner => kind.chars ++ inner.chars ++ [')']

/-- The characters of a sequence. -/
def Sequence.chars : Sequence → List Char
  | .nil => []
  | .cons atom quantifier rest => atom.chars ++ quantifierChars quantifier ++ rest.chars

/-- The characters of some alternatives. -/
def Alternatives.chars : Alternatives → List Char
  | .last sequence => sequence.chars
  | .cons sequence rest => sequence.chars ++ '|' :: rest.chars

end

/-- The characters of an alternative at the top. -/
def Branch.chars (branch : Branch) : List Char :=
  (if branch.atStart then ['^'] else []) ++ branch.body.chars
    ++ (if branch.atEnd then ['$'] else [])

/-- The characters of a regular expression. -/
def chars (regex : Regex) : List Char :=
  ['|'].intercalate (regex.branches.map Branch.chars)

/-- The pattern that a regular expression is written as. -/
def text (regex : Regex) : String :=
  String.ofList regex.chars

/-! ### Languages -/

/-- Whether two characters are the same, or the same letter if case is ignored. -/
def Same (ignoreCase : Bool) (c d : Char) : Prop :=
  c = d ∨ ignoreCase = true ∧ c.toLower = d.toLower

/-- Whether a character is the same as one of a kind. -/
def IsSomeOf (ignoreCase : Bool) (kind : Char → Prop) (d : Char) : Prop :=
  ∃ c, kind c ∧ Same ignoreCase c d

/-- The characters in a class. -/
def Shorthand.Has : Shorthand → Char → Prop
  | digit, c => c.isDigit = true
  | word, c => c.isAlpha = true ∨ c = '_'
  | space, c => c ∈ [' ', '\n', '\t', '\r']

/-- The characters that are meant in brackets. -/
def Member.Has : Member → Char → Prop
  | literal d _, c => c = d
  | shorthand kind, c => kind.Has c
  | range first last _, c => first ≤ c ∧ c ≤ last

/-- The least and the greatest number of times that a quantifier allows. -/
def Quantifier.bounds : Quantifier → Nat × Option Nat
  | star => (0, none)
  | plus => (1, none)
  | optional => (0, some 1)
  | exactly n => (n, some n)
  | atLeast n => (n, none)
  | between low high => (low, some high)

/-- The texts that a quantifier makes of those of an atom. -/
def quantified (quantifier : Option Quantifier) (L : Language Char) : Language Char :=
  quantifier.elim L fun q => repeated q.bounds.1 q.bounds.2 L

section

variable (lineBreak : Char → Prop) (ignoreCase : Bool)

mutual

/-- The texts that an atom matches, where a dot matches no line break. A negated class has the
characters that are not the same as one in it. -/
def Atom.language : Atom → Language Char
  | .literal c _ => single (Same ignoreCase c)
  | .escaped c _ => single (Same ignoreCase c)
  | .dot => single fun d => ¬ lineBreak d
  | .shorthand negated kind =>
    single fun d => IsSomeOf ignoreCase kind.Has d ↔ negated = false
  | .brackets negated first others =>
    single fun d =>
      IsSomeOf ignoreCase (fun c => ∃ member ∈ first :: others, member.Has c) d ↔ negated = false
  | .group _ inner => inner.language

/-- The texts that a sequence matches. -/
def Sequence.language : Sequence → Language Char
  | .nil => 1
  | .cons atom quantifier rest => quantified quantifier atom.language * rest.language

/-- The texts that some alternatives match. -/
def Alternatives.language : Alternatives → Language Char
  | .last sequence => sequence.language
  | .cons sequence rest => sequence.language + rest.language

end

/-- Whether an alternative at the top matches somewhere in a term, at the start or at the end if
it is anchored there. -/
def Branch.MatchesIn (branch : Branch) (term : List Char) : Prop :=
  ∃ before found behind, term = before ++ found ++ behind
    ∧ found ∈ branch.body.language lineBreak ignoreCase
    ∧ (branch.atStart = true → before = []) ∧ (branch.atEnd = true → behind = [])

/-- Whether a regular expression matches somewhere in a term. -/
def MatchesIn (regex : Regex) (term : String) : Prop :=
  ∃ branch ∈ regex.branches, branch.MatchesIn lineBreak ignoreCase term.toList

end

/-! ### Names of groups -/

/-- Whether all brackets that are opened in a text are closed in it. -/
def bracketsClose : Bool → List Char → Bool
  | inside, [] => !inside
  | inside, c :: rest => bracketsClose (if inside then c ≠ ']' else c = '[') rest

/-- The name that a group has. -/
def GroupKind.names : GroupKind → List (List Char)
  | named name _ => [name]
  | _ => []

mutual

/-- The names of the groups in an atom. -/
def Atom.names : Atom → List (List Char)
  | .group kind inner => kind.names ++ inner.names
  | _ => []

/-- The names of the groups in a sequence. -/
def Sequence.names : Sequence → List (List Char)
  | .nil => []
  | .cons atom _ rest => atom.names ++ rest.names

/-- The names of the groups in some alternatives. -/
def Alternatives.names : Alternatives → List (List Char)
  | .last sequence => sequence.names
  | .cons sequence rest => sequence.names ++ rest.names

end

/-- The names of all groups. -/
def names (regex : Regex) : List (List Char) :=
  regex.branches.flatMap fun branch => branch.body.names

end Regex

end Sift
