import Sift.Syntax.Reader

/-!
# Delimiters

`checkDelimiters` looks at nothing but quotes, slashes and parentheses. It finds a literal that is
never closed, or a parenthesis without a partner: the first closing one, or else the outermost
opening one.
-/

namespace Sift.Syntax

/-- What is wrong with the delimiters of a text. -/
inductive DelimiterFault where
  | openLiteral (firstLine : List Char)
  | unmatched (place : Nat)
deriving DecidableEq

/-- The first line of a text, without the carriage return that may belong to its end. -/
def firstLine (cs : List Char) : List Char :=
  match cs.span (· ≠ '\n') with
  | (line, '\n' :: _) => if line.getLast? = some '\r' then line.dropLast else line
  | (line, _) => line

/-- The text behind a literal that `quote` opened, with the number of bytes up to there. A regex
has to be closed on its line; a backslash takes the character behind it for itself. -/
def closeLiteral (quote : Char) : Nat → List Char → Option (Nat × List Char)
  | _, [] => none
  | place, c :: rest =>
    if c = '\\' then
      match rest with
      | [] => none
      | d :: rest => closeLiteral quote (place + c.utf8Size + d.utf8Size) rest
    else if c = quote then some (place + c.utf8Size, rest)
    else if quote = '/' ∧ c = '\n' then none
    else closeLiteral quote (place + c.utf8Size) rest

theorem length_closeLiteral {quote : Char} {place behind : Nat} {cs rest : List Char}
    (h : closeLiteral quote place cs = some (behind, rest)) :
  rest.length < cs.length
  := by
  fun_induction closeLiteral quote place cs with
  | case1 => cases h
  | case2 => cases h
  | case3 _ _ _ ih =>
    have := ih h
    simp only [List.length_cons]
    omega
  | case4 =>
    cases h
    simp
  | case5 => cases h
  | case6 _ _ _ _ _ _ ih =>
    have := ih h
    simp only [List.length_cons]
    omega

/-- Whether a character opens a literal. -/
def opensLiteral (c : Char) : Bool :=
  ['"', '\x27', '/'].contains c

/-- The fault of the delimiters of a text, if there is one; `opened` are the places of the
parentheses before it that wait for a partner, the innermost first. -/
def delimiterFault (opened : List Nat) (place : Nat) (cs : List Char) : Option DelimiterFault :=
  match cs with
  | [] => opened.getLast?.map .unmatched
  | c :: rest =>
    if opensLiteral c then
      match _h : closeLiteral c (place + c.utf8Size) rest with
      | some (behind, rest') => delimiterFault opened behind rest'
      | none => some (.openLiteral (firstLine (c :: rest)))
    else if c = '(' then delimiterFault (place :: opened) (place + c.utf8Size) rest
    else if c = ')' then
      match opened with
      | [] => some (.unmatched place)
      | _ :: opened => delimiterFault opened (place + c.utf8Size) rest
    else delimiterFault opened (place + c.utf8Size) rest
termination_by cs.length
decreasing_by
  · have := length_closeLiteral _h
    simp only [List.length_cons]
    omega
  all_goals simp

/-- Checks that literals are closed and that parentheses are balanced. -/
def checkDelimiters (cs : List Char) : Except DelimiterFault Unit :=
  match delimiterFault [] 0 cs with
  | some fault => .error fault
  | none => .ok ()

end Sift.Syntax
