import Sift.Pattern.Engine

/-!
# Scanning patterns

A `Scan` is a place in a pattern: what the next character belongs to, how many groups are open, and
whether there is something that a quantifier could repeat. `Scan.next` goes on by one character,
and `Scan.passes` says that a condition holds of every character at its place. A pattern is
`WellFormed` for the engine if every character suits the place that it stands at, and nothing is
open at the end.
-/

namespace Sift.Pattern

/-! ### Places -/

/-- What the next character of a pattern belongs to. -/
inductive Spot where
  | outside
  | escape
  /-- Right behind the parenthesis that opens a group. -/
  | group
  /-- Right behind the question mark that says what kind of group it is. -/
  | groupKind
  | name
  | counts
  /-- Right behind an opening bracket. -/
  | bracketStart
  /-- Right behind the circumflex that negates a bracket expression. -/
  | bracketFirst
  | brackets
  | bracketEscape
deriving DecidableEq, Repr

namespace Spot

/-- Whether a character would stand outside brackets, and for itself. -/
def isOutside : Spot → Bool
  | outside | group => true
  | _ => false

/-- Whether a character would be a member of a bracket expression or close it. -/
def isInside : Spot → Bool
  | bracketStart | bracketFirst | brackets => true
  | _ => false

/-- Whether a backslash stands in front. -/
def isEscaped : Spot → Bool
  | escape | bracketEscape => true
  | _ => false

end Spot

/-- A place in a pattern. -/
structure Scan where
  spot : Spot := .outside
  /-- The number of groups that are open. -/
  depth : Nat := 0
  /-- Whether there is something that a quantifier could repeat. -/
  repeatable : Bool := false
deriving DecidableEq, Repr

/-- The signs that repeat what stands in front of them. -/
def quantifierSigns : List Char :=
  ['*', '+', '?', '\x7b']

/-- The signs that need something in front of them. -/
def backedSigns : List Char :=
  ')' :: quantifierSigns

/-- The signs that stand for an end of a text. -/
def anchorSigns : List Char :=
  ['^', '$']

/-- The characters that do not stand for themselves outside brackets. -/
def outsideSigns : List Char :=
  ['\\', '[', '(', '|'] ++ backedSigns ++ anchorSigns

/-- The characters that do not stand for themselves in brackets. -/
def insideSigns : List Char :=
  ['\\', ']', '^']

namespace Scan

/-- The place behind a character outside brackets. -/
def nextOutside (depth : Nat) (c : Char) : Scan :=
  if c = '\\' then ⟨.escape, depth, true⟩
  else if c = '[' then ⟨.bracketStart, depth, true⟩
  else if c = '(' then ⟨.group, depth + 1, false⟩
  else if c = ')' then ⟨.outside, depth - 1, true⟩
  else if c = '|' then ⟨.outside, depth, false⟩
  else if c = '\x7b' then ⟨.counts, depth, true⟩
  else ⟨.outside, depth, true⟩

/-- The place behind a character in brackets. -/
def nextInside (depth : Nat) (c : Char) : Scan :=
  if c = ']' then ⟨.outside, depth, true⟩
  else if c = '\\' then ⟨.bracketEscape, depth, true⟩
  else ⟨.brackets, depth, true⟩

/-- The place behind a character. -/
def next (s : Scan) (c : Char) : Scan :=
  match s.spot with
  | .outside => nextOutside s.depth c
  | .escape => ⟨.outside, s.depth, true⟩
  | .group => if c = '?' then ⟨.groupKind, s.depth, false⟩ else nextOutside s.depth c
  | .groupKind => ⟨if c = ':' then .outside else .name, s.depth, false⟩
  | .name => ⟨if c = '>' then .outside else .name, s.depth, false⟩
  | .counts => ⟨if c = '\x7d' then .outside else .counts, s.depth, true⟩
  | .bracketStart => if c = '^' then ⟨.bracketFirst, s.depth, true⟩ else nextInside s.depth c
  | .bracketFirst => nextInside s.depth c
  | .brackets => nextInside s.depth c
  | .bracketEscape => ⟨.brackets, s.depth, true⟩

/-- The place behind a text. -/
def after (s : Scan) (cs : List Char) : Scan :=
  cs.foldl next s

/-- Whether a condition holds of every character of a text at its place. -/
def passes (check : Scan → Char → Bool) (s : Scan) : List Char → Bool
  | [] => true
  | c :: rest => check s c && passes check (s.next c) rest

/-- Whether nothing is open but groups. -/
def isOutside (s : Scan) : Bool :=
  s.spot.isOutside

/-- Whether a group is open where one is closed, and whether there is something in front of a
quantifier. -/
def isBacked (s : Scan) (c : Char) : Bool :=
  (c ≠ ')' || 0 < s.depth) && (!quantifierSigns.contains c || s.repeatable)

/-- Whether a character may stand at a place in a pattern of the engine: outside brackets it is
backed and no anchor, brackets are not empty, and neither a letter nor a digit is escaped. -/
def suits (s : Scan) (c : Char) : Bool :=
  match s.spot with
  | .outside | .group => s.isBacked c && !anchorSigns.contains c
  | .escape | .bracketEscape => !Text.isAlphanumeric c
  | .bracketStart | .bracketFirst => c ≠ ']'
  | .brackets => true
  | .counts => c.isDigit || c = ',' || c = '\x7d'
  | .groupKind | .name => false

/-- Whether a character may stand at a place in a regular expression as far as groups, quantifiers
and escapes are concerned. -/
def isReadable (s : Scan) (c : Char) : Bool :=
  match s.spot with
  | .outside => s.isBacked c
  | .group => c = '?' || s.isBacked c
  | .escape | .bracketEscape => c.toNat < 128
  | _ => true

/-- Whether a character is neither a bracket in brackets nor right behind an opening bracket one
that closes them. -/
def isPlain (s : Scan) (c : Char) : Bool :=
  match s.spot with
  | .bracketStart | .bracketFirst => c ≠ '[' && c ≠ ']'
  | .brackets => c ≠ '['
  | _ => true

end Scan

/-- Whether a text is well formed as a pattern of the engine. -/
def WellFormed (cs : List Char) : Prop :=
  Scan.passes Scan.suits {} cs = true ∧ (Scan.after {} cs).isOutside = true
    ∧ (Scan.after {} cs).depth = 0

instance (cs : List Char) : Decidable (WellFormed cs) :=
  inferInstanceAs (Decidable (_ ∧ _ ∧ _))

namespace Scan

variable {s : Scan} {c : Char} {rest : List Char} {check : Scan → Char → Bool}

/-! ### Scanning parts of a text -/

@[simp]
theorem after_nil (s : Scan) :
  s.after [] = s
  := rfl

@[simp]
theorem after_cons (s : Scan) (c : Char) (rest : List Char) :
  s.after (c :: rest) = (s.next c).after rest
  := rfl

theorem after_append (s : Scan) (first second : List Char) :
  s.after (first ++ second) = (s.after first).after second
  := List.foldl_append

@[simp]
theorem passes_nil (s : Scan) :
  s.passes check [] = true
  := rfl

@[simp]
theorem passes_cons :
  s.passes check (c :: rest) = true ↔ check s c = true ∧ (s.next c).passes check rest = true
  := by
  rw [passes, Bool.and_eq_true]

theorem passes_append {first second : List Char} :
  s.passes check (first ++ second) = true
    ↔ s.passes check first = true ∧ (s.after first).passes check second = true
  := by
  induction first generalizing s with
  | nil => simp
  | cons c first ih => rw [List.cons_append, passes_cons, passes_cons, ih, after_cons, and_assoc]

/-! ### Outside brackets -/

/-- Outside brackets the next place depends on the number of open groups only, unless a question
mark says what kind of group it is. -/
theorem next_of_isOutside (h : s.isOutside = true) (hc : s.spot = .group → c ≠ '?') :
  s.next c = nextOutside s.depth c
  := by
  obtain ⟨spot, depth, repeatable⟩ := s
  cases spot with
  | outside => rfl
  | group => exact if_neg (hc rfl)
  | _ => cases h

theorem suits_of_isOutside (h : s.isOutside = true) :
  s.suits c = (s.isBacked c && !anchorSigns.contains c)
  := by
  obtain ⟨spot, depth, repeatable⟩ := s
  cases spot with
  | outside | group => rfl
  | _ => cases h

theorem isReadable_of_isOutside (h : s.isOutside = true) (hc : s.spot = .group → c ≠ '?') :
  s.isReadable c = s.isBacked c
  := by
  obtain ⟨spot, depth, repeatable⟩ := s
  cases spot with
  | outside => rfl
  | group => simp [isReadable, hc rfl]
  | _ => cases h

theorem isBacked_of_not_mem (hc : c ∉ backedSigns) :
  s.isBacked c = true
  := by
  rw [backedSigns, List.mem_cons, not_or, ← List.contains_iff_mem, Bool.not_eq_true] at hc
  rw [isBacked, hc.2, Bool.not_false, Bool.true_or, Bool.and_true, decide_eq_true hc.1,
    Bool.true_or]

theorem isBacked_of_repeatable (h : s.repeatable = true) (hc : c ≠ ')') :
  s.isBacked c = true
  := by
  simp [isBacked, h, hc]

theorem isBacked_of_depth (h : 0 < s.depth) :
  s.isBacked ')' = true
  := by
  simp [isBacked, quantifierSigns, h]

/-- Where a quantifier is backed, there is something in front of it. -/
theorem repeatable_of_isBacked (h : s.isBacked c = true) (hc : c ∈ quantifierSigns) :
  s.repeatable = true
  := by
  rw [isBacked, Bool.and_eq_true, List.contains_iff_mem.mpr hc] at h
  exact h.2

/-- Where a closing parenthesis is backed, a group is open. -/
theorem depth_of_isBacked (h : s.isBacked ')' = true) :
  0 < s.depth
  := by
  rw [isBacked, Bool.and_eq_true] at h
  exact of_decide_eq_true h.1

/-- What is no sign outside brackets stands for itself there. -/
theorem nextOutside_of_not_mem {depth : Nat} (hc : c ∉ outsideSigns) :
  nextOutside depth c = ⟨.outside, depth, true⟩
  := by
  simp only [outsideSigns, backedSigns, quantifierSigns, List.mem_append, List.mem_cons,
    not_or] at hc
  simp [nextOutside, hc]

/-! ### In brackets -/

/-- In brackets the next place depends on the number of open groups only, unless the character is
a circumflex. -/
theorem next_of_isInside (h : s.spot.isInside = true) (hc : c ≠ '^') :
  s.next c = nextInside s.depth c
  := by
  obtain ⟨spot, depth, repeatable⟩ := s
  cases spot with
  | bracketStart => exact if_neg hc
  | bracketFirst | brackets => rfl
  | _ => cases h

theorem suits_of_isInside (h : s.spot.isInside = true) (hc : c ≠ ']') :
  s.suits c = true
  := by
  obtain ⟨spot, depth, repeatable⟩ := s
  cases spot with
  | bracketStart | bracketFirst => exact decide_eq_true hc
  | brackets => rfl
  | _ => cases h

theorem isReadable_of_isInside (h : s.spot.isInside = true) :
  s.isReadable c = true
  := by
  obtain ⟨spot, depth, repeatable⟩ := s
  cases spot with
  | bracketStart | bracketFirst | brackets => rfl
  | _ => cases h

/-- What neither closes brackets nor escapes is followed by another member. -/
theorem isInside_next (h : s.spot.isInside = true) (hclose : c ≠ ']') (hbackslash : c ≠ '\\') :
  (s.next c).spot.isInside = true ∧ (s.next c).depth = s.depth
  := by
  by_cases hnegation : s.spot = .bracketStart ∧ c = '^'
  case pos =>
    obtain ⟨hspot, rfl⟩ := hnegation
    rw [next, hspot]
    exact ⟨rfl, rfl⟩
  case neg =>
    have hnext : s.next c = nextInside s.depth c := by
      obtain ⟨spot, depth, repeatable⟩ := s
      cases spot with
      | bracketStart => exact if_neg fun hc => hnegation ⟨rfl, hc⟩
      | bracketFirst | brackets => rfl
      | _ => cases h
    rw [hnext, nextInside, if_neg hclose, if_neg hbackslash]
    exact ⟨rfl, rfl⟩

end Scan

end Sift.Pattern
