import Sift.Proofs.Computation
import Sift.Proofs.Pattern.Alternatives

/-!
# Converting a regular expression

What is written for the engine is settled part by part: `Atom.piece` is the text for an atom, and
in the same way for the other parts. `Sequence.convertFrom_chars` is the result that converting the
text of a sequence gives its piece, and `Branch.convertAlternative_chars` is the same for a branch
with its anchors.
-/

namespace Sift

namespace Pattern

/-! ### Pieces -/

theorem emit_emit (first second : List Char) (rest : Except Fault (List Char)) :
  emit first (emit second rest) = emit (first ++ second) rest
  := by
  cases rest with
  | error => rfl
  | ok cs => simp [emit, Except.map]

theorem emit_nil (rest : Except Fault (List Char)) :
  emit [] rest = rest
  := by
  cases rest <;> rfl

theorem emit_ok (piece rest : List Char) :
  emit piece (.ok rest) = .ok (piece ++ rest)
  := rfl

section

variable (ignoreCase : Bool) (rest : List Char)

theorem convertFrom_escape {c : Char} {piece : List Char} (h : escapePiece c = .ok piece) :
  convertFrom ignoreCase .outside ('\\' :: c :: rest)
    = emit piece (convertFrom ignoreCase .outside rest)
  := by
  rw [convertFrom.eq_def]
  simp [h]

theorem convertFrom_literal {c : Char}
    (h : c ∉ ['\\', '[', '(', '*', '+', '?', '\x7b', '^', '$']) :
  convertFrom ignoreCase .outside (c :: rest)
    = emit (literalPiece ignoreCase c) (convertFrom ignoreCase .outside rest)
  := by
  simp only [List.mem_cons, List.not_mem_nil, or_false, not_or] at h
  obtain ⟨h1, h2, h3, h4, h5, h6, h7, h8, h9⟩ := h
  rw [convertFrom.eq_def]
  simp [h1, h2, h3, h4, h5, h6, h7, h8, h9]

theorem convertFrom_sign {c : Char} (hc : c = '*' ∨ c = '+' ∨ c = '?')
    (hrest : rest.head? ≠ some '?') :
  convertFrom ignoreCase .outside (c :: rest) = emit [c] (convertFrom ignoreCase .outside rest)
  := by
  rw [convertFrom.eq_def]
  obtain rfl | rfl | rfl := hc <;> simp [unlessLazy, hrest]

theorem convertFrom_brackets (negated : Bool) (hrest : negated = false → rest.head? ≠ some '^') :
  convertFrom ignoreCase .outside (('[' :: if negated then ['^'] else []) ++ rest)
    = emit ('[' :: if negated then ['^'] else []) (convertFrom ignoreCase .brackets rest)
  := by
  rw [convertFrom.eq_def]
  cases negated with
  | true => simp
  | false =>
    have hrest := hrest rfl
    simp
    split
    · simp at hrest
    · rfl

theorem convertFrom_closeBracket :
  convertFrom ignoreCase .brackets (']' :: rest) = emit [']'] (convertFrom ignoreCase .outside rest)
  := by
  rw [convertFrom.eq_def]
  simp

theorem convertFrom_bracketEscape {c : Char} {piece : List Char}
    (h : bracketEscapePiece c = .ok piece) :
  convertFrom ignoreCase .brackets ('\\' :: c :: rest)
    = emit piece (convertFrom ignoreCase .brackets rest)
  := by
  rw [convertFrom.eq_def]
  simp [h]

theorem convertFrom_bracketLetter {c : Char} (hc : c.isAlpha = true)
    (hrest : rest.head? ≠ some '-') :
  convertFrom ignoreCase .brackets (c :: rest)
    = emit (letterPiece ignoreCase c) (convertFrom ignoreCase .brackets rest)
  := by
  have hclose : c ≠ ']' := by rintro rfl; simp at hc
  have hbackslash : c ≠ '\\' := by rintro rfl; simp at hc
  rw [convertFrom.eq_def]
  simp only [hclose, hbackslash, hc, if_false, if_true]
  split
  · simp at hrest
  · rfl

theorem convertFrom_bracketRange {first last : Char} (hfirst : first.isAlpha = true)
    (hlast : last.isAlpha = true) :
  convertFrom ignoreCase .brackets (first :: '-' :: last :: rest)
    = emit (rangePiece ignoreCase first last) (convertFrom ignoreCase .brackets rest)
  := by
  have hclose : first ≠ ']' := by rintro rfl; simp at hfirst
  have hbackslash : first ≠ '\\' := by rintro rfl; simp at hfirst
  rw [convertFrom.eq_def]
  simp [hclose, hbackslash, hfirst, hlast]

theorem convertFrom_bracketOther {c : Char} (hclose : c ≠ ']') (hbackslash : c ≠ '\\')
    (hc : c.isAlpha = false) :
  convertFrom ignoreCase .brackets (c :: rest) = emit [c] (convertFrom ignoreCase .brackets rest)
  := by
  rw [convertFrom.eq_def]
  simp [hclose, hbackslash, hc]

theorem convertFrom_openGroup (hrest : rest.head? ≠ some '?') :
  convertFrom ignoreCase .outside ('(' :: rest) = emit ['('] (convertFrom ignoreCase .outside rest)
  := by
  rw [convertFrom.eq_def]
  simp
  split
  · simp at hrest
  · simp at hrest
  · simp at hrest
  · rfl

theorem convertFrom_uncaptured :
  convertFrom ignoreCase .outside ('(' :: '?' :: ':' :: rest)
    = emit ['('] (convertFrom ignoreCase .outside rest)
  := by
  rw [convertFrom.eq_def]
  simp

theorem convertFrom_name {name : List Char} (hname : '>' ∉ name) :
  convertFrom ignoreCase .name (name ++ '>' :: rest)
    = emit ['('] (convertFrom ignoreCase .outside rest)
  := by
  induction name with
  | nil =>
    rw [List.nil_append, convertFrom.eq_def]
    simp
  | cons c name ih =>
    simp only [List.mem_cons, not_or] at hname
    rw [List.cons_append, convertFrom.eq_def]
    simp only [if_neg (Ne.symm hname.1), ih hname.2]

theorem convertFrom_named {c : Char} {name : List Char} (hc : c ≠ '=' ∧ c ≠ '!')
    (hname : '>' ∉ c :: name) :
  convertFrom ignoreCase .outside ('(' :: '?' :: '<' :: c :: name ++ '>' :: rest)
    = emit ['('] (convertFrom ignoreCase .outside rest)
  := by
  have h := convertFrom_name ignoreCase rest hname
  rw [List.cons_append] at h
  simp only [List.cons_append]
  rw [convertFrom.eq_def]
  simp [hc, h]

theorem convertFrom_counts {text : List Char} (htext : ∀ c ∈ text, c.isDigit = true ∨ c = ',')
    (hrest : rest.head? ≠ some '?') :
  convertFrom ignoreCase .counts (text ++ '\x7d' :: rest)
    = emit (text ++ ['\x7d']) (convertFrom ignoreCase .outside rest)
  := by
  induction text with
  | nil =>
    rw [List.nil_append, convertFrom.eq_def]
    simp [unlessLazy, hrest]
  | cons c text ih =>
    have hc := htext c (by simp)
    have hclose : c ≠ '\x7d' := by
      rintro rfl
      simp at hc
    rw [List.cons_append, convertFrom.eq_def]
    simp only [if_neg hclose, if_pos hc, ih fun d hd => htext d (by simp [hd]), emit_emit,
      List.cons_append, List.nil_append]

theorem convertFrom_braces {text : List Char} (htext : ∀ c ∈ text, c.isDigit = true ∨ c = ',')
    (hrest : rest.head? ≠ some '?') :
  convertFrom ignoreCase .outside ('\x7b' :: text ++ '\x7d' :: rest)
    = emit ('\x7b' :: text ++ ['\x7d']) (convertFrom ignoreCase .outside rest)
  := by
  rw [List.cons_append, convertFrom.eq_def]
  simp [convertFrom_counts ignoreCase rest htext hrest, emit_emit]

end

/-! ### Whole patterns -/

/-- What is written for a pattern are its alternatives, and the pattern passes the syntax check. -/
theorem toEngine_inv {pattern engine : String} {ignoreCase : Bool}
    (h : toEngine pattern ignoreCase = .ok engine) :
  ∃ pieces, List.Forall₂ (fun text piece => convertAlternative ignoreCase text = .ok piece)
      (alternatives pattern.toList) pieces
    ∧ check pattern.toList = .ok () ∧ engine.toList = ['|'].intercalate pieces
  := by
  rw [toEngine, map_eq_ok_iff] at h
  obtain ⟨out, hout, rfl⟩ := h
  obtain ⟨pieces, hpieces, hout⟩ := bind_eq_ok_iff.mp hout
  obtain ⟨⟨⟩, hcheck, hout⟩ := bind_eq_ok_iff.mp hout
  cases hout
  exact ⟨pieces, forall₂_of_mapM_eq_ok hpieces, hcheck, String.toList_ofList⟩

end Pattern

open Pattern

namespace Regex

/-! ### The pieces of a regular expression -/

/-- The members that a class stands for in brackets. -/
def Shorthand.members : Shorthand → List Char
  | digit => digitMembers
  | word => wordMembers
  | space => spaceMembers

/-- What stands for the engine in brackets. -/
def Member.piece (ignoreCase : Bool) : Member → List Char
  | literal c _ => if c.isAlpha then letterPiece ignoreCase c else [c]
  | shorthand kind => kind.members
  | range first last _ =>
    if first.isAlpha then rangePiece ignoreCase first last else [first, '-', last]

mutual

/-- What an atom is for the engine. -/
def Atom.piece (ignoreCase : Bool) : Atom → List Char
  | .literal c _ => literalPiece ignoreCase c
  | .escaped c _ => if c = '/' then ['/'] else ['\\', c]
  | .dot => ['.']
  | .shorthand negated kind => bracketed negated kind.members
  | .brackets negated first others =>
    bracketed negated ((first :: others).flatMap (Member.piece ignoreCase))
  | .group _ inner => '(' :: inner.piece ignoreCase ++ [')']

/-- What a sequence is for the engine. -/
def Sequence.piece (ignoreCase : Bool) : Sequence → List Char
  | .nil => []
  | .cons atom quantifier rest =>
    atom.piece ignoreCase ++ quantifierChars quantifier ++ rest.piece ignoreCase

/-- What alternatives are for the engine. -/
def Alternatives.piece (ignoreCase : Bool) : Alternatives → List Char
  | .last sequence => sequence.piece ignoreCase
  | .cons sequence rest => sequence.piece ignoreCase ++ '|' :: rest.piece ignoreCase

end

/-- What an alternative at the top is for the engine. -/
def Branch.piece (ignoreCase : Bool) (branch : Branch) : List Char :=
  if (branch.body.piece ignoreCase).isEmpty && !branch.atStart && !branch.atEnd then anyRun
  else
    (if branch.atStart then [] else anyRun) ++ branch.body.piece ignoreCase
      ++ (if branch.atEnd then [] else anyRun)

/-- Both ends of a range are letters, or neither is. -/
theorem isAlpha_of_isRange {first last : Char} (h : isRange first last = true) :
  last.isAlpha = first.isAlpha
  := by
  simp only [isRange, Bool.and_eq_true, Bool.or_eq_true, isDigit_iff, isUpper_iff, isLower_iff] at h
  rw [Bool.eq_iff_iff, isAlpha_iff, isAlpha_iff]
  omega

/-- What an escaped character that is neither a letter nor a digit is for the engine. -/
theorem escapePiece_of_not_isAlphanum {c : Char} (h : c.isAlphanum = false) :
  escapePiece c = .ok (if c = '/' then ['/'] else ['\\', c])
  := by
  have hne : ∀ d, d.isAlphanum = true → c ≠ d := by
    rintro d hd rfl
    rw [h] at hd
    cases hd
  have hdigit : c.isDigit = false := by
    rw [Char.isAlphanum, Bool.or_eq_false_iff] at h
    exact h.2
  simp only [escapePiece, hne 's' rfl, hne 'd' rfl, hne 'w' rfl, hne 'S' rfl, hne 'D' rfl,
    hne 'W' rfl, hne 'n' rfl, hne 't' rfl, hne 'r' rfl, hne 'b' rfl, hne 'B' rfl, h, hdigit, if_false,
    or_self, false_and, Bool.false_eq_true]
  split
  · rfl
  · rfl

/-! ### First characters -/

theorem Member.head?_chars_ne (member : Member) {c : Char} (hc : c ∈ ['-', '^'])
    (rest : List Char) :
  (member.chars ++ rest).head? ≠ some c
  := by
  cases member with
  | literal d h =>
    rintro ⟨⟩
    have hspecial : ['-', '^'] ⊆ bracketMetacharacters := by decide
    apply h (hspecial hc)
  | shorthand kind =>
    rintro ⟨⟩
    revert hc
    decide
  | range first last h =>
    have halphanum : c.isAlphanum = false := by
      obtain rfl | rfl : c = '-' ∨ c = '^' := by simpa using hc
      · decide
      · decide
    have hne := (isRange_ne h halphanum).1
    simpa [Member.chars] using hne

theorem Atom.head?_chars_ne (atom : Atom) {c : Char} (hc : c ∈ ['?', '^']) (rest : List Char) :
  (atom.chars ++ rest).head? ≠ some c
  := by
  have hne : c ∈ metacharacters ∧ c ≠ '\\' ∧ c ≠ '.' ∧ c ≠ '[' ∧ c ≠ '(' := by
    obtain rfl | rfl : c = '?' ∨ c = '^' := by simpa using hc
    · decide
    · decide
  obtain ⟨hmeta, hbackslash, hdot, hbracket, hparen⟩ := hne
  cases atom with
  | literal d h =>
    rintro ⟨⟩
    exact h hmeta
  | escaped d => simpa [Atom.chars] using hbackslash.symm
  | dot => simpa [Atom.chars] using hdot.symm
  | shorthand negated kind => simpa [Atom.chars] using hbackslash.symm
  | brackets negated first others => simpa [Atom.chars, bracketed] using hbracket.symm
  | group kind inner => cases kind <;> simpa [Atom.chars, GroupKind.chars] using hparen.symm

theorem Sequence.head?_chars_ne (sequence : Sequence) {c : Char} (hc : c ∈ ['?', '^'])
    {rest : List Char} (hrest : rest.head? ≠ some c) :
  (sequence.chars ++ rest).head? ≠ some c
  := by
  cases sequence with
  | nil => exact hrest
  | cons atom quantifier others =>
    rw [Sequence.chars, List.append_assoc, List.append_assoc]
    apply atom.head?_chars_ne hc

theorem Alternatives.head?_chars_ne (alternatives : Alternatives) {c : Char} (hc : c ∈ ['?', '^'])
    {rest : List Char} (hrest : rest.head? ≠ some c) :
  (alternatives.chars ++ rest).head? ≠ some c
  := by
  cases alternatives with
  | last sequence => apply sequence.head?_chars_ne hc hrest
  | cons sequence others =>
    rw [Alternatives.chars, List.append_assoc]
    apply sequence.head?_chars_ne hc
    rintro ⟨⟩
    revert hc
    decide

/-! ### Converting the parts -/

section

variable (ignoreCase : Bool)

theorem Member.convertFrom_chars (member : Member) {rest : List Char}
    (hrest : rest.head? ≠ some '-') :
  convertFrom ignoreCase .brackets (member.chars ++ rest)
    = emit (member.piece ignoreCase) (convertFrom ignoreCase .brackets rest)
  := by
  cases member with
  | literal c h =>
    have hclose : c ≠ ']' := by
      rintro rfl
      exact h (by decide)
    have hbackslash : c ≠ '\\' := by
      rintro rfl
      exact h (by decide)
    cases hc : c.isAlpha with
    | true =>
      rw [Member.piece, if_pos hc]
      apply convertFrom_bracketLetter ignoreCase rest hc hrest
    | false =>
      rw [Member.piece, if_neg (by simp [hc])]
      apply convertFrom_bracketOther ignoreCase rest hclose hbackslash hc
  | shorthand kind =>
    apply convertFrom_bracketEscape
    cases kind <;> rfl
  | range first last h =>
    have hclose := isRange_ne h (by decide : (']').isAlphanum = false)
    have hbackslash := isRange_ne h (by decide : ('\\').isAlphanum = false)
    have halpha := isAlpha_of_isRange h
    cases hfirst : first.isAlpha with
    | true =>
      rw [Member.piece, if_pos hfirst]
      apply convertFrom_bracketRange ignoreCase rest hfirst (halpha.trans hfirst)
    | false =>
      rw [Member.piece, if_neg (by simp [hfirst]), Member.chars]
      simp only [List.cons_append, List.nil_append]
      rw [convertFrom_bracketOther ignoreCase _ hclose.1 hbackslash.1 hfirst,
        convertFrom_bracketOther ignoreCase _ (by decide) (by decide) (by decide),
        convertFrom_bracketOther ignoreCase _ hclose.2 hbackslash.2 (halpha.trans hfirst),
        emit_emit, emit_emit]
      rfl

theorem convertFrom_members (members : List Member) {rest : List Char}
    (hrest : rest.head? ≠ some '-') :
  convertFrom ignoreCase .brackets (members.flatMap Member.chars ++ rest)
    = emit (members.flatMap (Member.piece ignoreCase)) (convertFrom ignoreCase .brackets rest)
  := by
  induction members with
  | nil => rw [List.flatMap_nil, List.flatMap_nil, List.nil_append, emit_nil]
  | cons member members ih =>
    have hbehind : (members.flatMap Member.chars ++ rest).head? ≠ some '-' := by
      cases members with
      | nil => exact hrest
      | cons second members =>
        rw [List.flatMap_cons, List.append_assoc]
        apply second.head?_chars_ne (by decide)
    rw [List.flatMap_cons, List.flatMap_cons, List.append_assoc,
      member.convertFrom_chars ignoreCase hbehind, ih, emit_emit]

theorem GroupKind.convertFrom_chars (kind : GroupKind) {rest : List Char}
    (hrest : rest.head? ≠ some '?') :
  convertFrom ignoreCase .outside (kind.chars ++ rest)
    = emit ['('] (convertFrom ignoreCase .outside rest)
  := by
  cases kind with
  | plain => apply convertFrom_openGroup ignoreCase rest hrest
  | uncaptured => apply convertFrom_uncaptured
  | named name h =>
    have hname := ne_of_mem_isGroupName h
    cases name with
    | nil => cases h
    | cons c name =>
      have hc : c ≠ '=' ∧ c ≠ '!' := by
        have hc := hname c (by simp)
        simp only [List.mem_cons, not_or] at hc
        exact ⟨hc.2.2.2.2.2.1, hc.2.2.2.2.2.2.1⟩
      have hclose : '>' ∉ c :: name := fun hmem => hname '>' hmem (by decide)
      rw [GroupKind.chars, List.append_assoc]
      apply convertFrom_named ignoreCase rest hc hclose

theorem Quantifier.convertFrom_chars (quantifier : Quantifier) {rest : List Char}
    (hrest : rest.head? ≠ some '?') :
  convertFrom ignoreCase .outside (quantifier.chars ++ rest)
    = emit quantifier.chars (convertFrom ignoreCase .outside rest)
  := by
  have hdigits (n : Nat) : ∀ c ∈ digits n, c.isDigit = true ∨ c = ',' :=
    fun c hc => .inl (Decimal.isDigit_of_mem_digits c hc)
  cases quantifier with
  | star => apply convertFrom_sign ignoreCase rest (by decide) hrest
  | plus => apply convertFrom_sign ignoreCase rest (by decide) hrest
  | optional => apply convertFrom_sign ignoreCase rest (by decide) hrest
  | exactly n =>
    have h := convertFrom_braces ignoreCase rest (hdigits n) hrest
    simpa [Quantifier.chars] using h
  | atLeast n =>
    have htext : ∀ c ∈ digits n ++ [','], c.isDigit = true ∨ c = ',' := by
      rw [List.forall_mem_append]
      exact ⟨hdigits n, by simp⟩
    have h := convertFrom_braces ignoreCase rest htext hrest
    simpa [Quantifier.chars] using h
  | between low high =>
    have htext : ∀ c ∈ digits low ++ ',' :: digits high, c.isDigit = true ∨ c = ',' := by
      rw [List.forall_mem_append, List.forall_mem_cons]
      exact ⟨hdigits low, .inr rfl, hdigits high⟩
    have h := convertFrom_braces ignoreCase rest htext hrest
    simpa [Quantifier.chars] using h

theorem convertFrom_quantifierChars (quantifier : Option Quantifier) {rest : List Char}
    (hrest : rest.head? ≠ some '?') :
  convertFrom ignoreCase .outside (quantifierChars quantifier ++ rest)
    = emit (quantifierChars quantifier) (convertFrom ignoreCase .outside rest)
  := by
  cases quantifier with
  | none => exact (emit_nil _).symm
  | some quantifier => apply quantifier.convertFrom_chars ignoreCase hrest

mutual

theorem Atom.convertFrom_chars (atom : Atom) (rest : List Char) :
  convertFrom ignoreCase .outside (atom.chars ++ rest)
    = emit (atom.piece ignoreCase) (convertFrom ignoreCase .outside rest)
  := by
  cases atom with
  | literal c hc =>
    apply convertFrom_literal
    intro hmem
    have hspecial : ['\\', '[', '(', '*', '+', '?', '\x7b', '^', '$'] ⊆ metacharacters := by decide
    exact hc (hspecial hmem)
  | escaped c hc => apply convertFrom_escape ignoreCase rest (escapePiece_of_not_isAlphanum hc)
  | dot => apply convertFrom_literal ignoreCase rest (by decide)
  | shorthand negated kind =>
    apply convertFrom_escape
    cases negated <;> cases kind <;> rfl
  | brackets negated first others =>
    have hmembers : ((first :: others).flatMap Member.chars ++ ']' :: rest).head? ≠ some '^' := by
      rw [List.flatMap_cons, List.append_assoc]
      apply first.head?_chars_ne (by decide)
    rw [Atom.chars, bracketed, List.append_assoc, List.append_assoc,
      List.singleton_append, convertFrom_brackets ignoreCase _ negated fun _ => hmembers,
      convertFrom_members ignoreCase _ (by simp), convertFrom_closeBracket, emit_emit, emit_emit]
    simp [Atom.piece, bracketed]
  | group kind inner =>
    have hinner : (inner.chars ++ ')' :: rest).head? ≠ some '?' :=
      inner.head?_chars_ne (by decide) (by simp)
    have hclose : convertFrom ignoreCase .outside (')' :: rest)
        = emit [')'] (convertFrom ignoreCase .outside rest) :=
      convertFrom_literal ignoreCase rest (by decide)
    rw [Atom.chars, List.append_assoc, List.append_assoc, List.singleton_append,
      kind.convertFrom_chars ignoreCase hinner, inner.convertFrom_chars (by simp), hclose,
      emit_emit, emit_emit]
    rfl

/-- Converting the text of a sequence gives its piece, unless what stands behind makes its last
quantifier a lazy one. -/
theorem Sequence.convertFrom_chars (sequence : Sequence) {rest : List Char}
    (hrest : rest.head? ≠ some '?') :
  convertFrom ignoreCase .outside (sequence.chars ++ rest)
    = emit (sequence.piece ignoreCase) (convertFrom ignoreCase .outside rest)
  := by
  cases sequence with
  | nil => exact (emit_nil _).symm
  | cons atom quantifier others =>
    have hothers := others.head?_chars_ne (c := '?') (by decide) hrest
    rw [Sequence.chars, List.append_assoc, List.append_assoc, atom.convertFrom_chars,
      convertFrom_quantifierChars ignoreCase quantifier hothers, others.convertFrom_chars hrest,
      emit_emit, emit_emit]
    rfl

theorem Alternatives.convertFrom_chars (alternatives : Alternatives) {rest : List Char}
    (hrest : rest.head? ≠ some '?') :
  convertFrom ignoreCase .outside (alternatives.chars ++ rest)
    = emit (alternatives.piece ignoreCase) (convertFrom ignoreCase .outside rest)
  := by
  cases alternatives with
  | last sequence => apply sequence.convertFrom_chars hrest
  | cons sequence others =>
    have hbar : convertFrom ignoreCase .outside ('|' :: (others.chars ++ rest))
        = emit ['|'] (convertFrom ignoreCase .outside (others.chars ++ rest)) :=
      convertFrom_literal ignoreCase _ (by decide)
    rw [Alternatives.chars, List.append_assoc, List.cons_append,
      sequence.convertFrom_chars (by simp), hbar, others.convertFrom_chars hrest, emit_emit,
      emit_emit, List.append_assoc]
    rfl

end

end

/-! ### Anchors -/

/-- The number of backslashes at the end of a text. -/
def backslashesAtEnd (text : List Char) : Nat :=
  (text.reverse.takeWhile (· = '\\')).length

theorem backslashesAtEnd_concat {c : Char} (hc : c ≠ '\\') (text : List Char) :
  backslashesAtEnd (text ++ [c]) = 0
  := by
  simp [backslashesAtEnd, hc]

theorem endsWithAnchor_concat (text : List Char) (c : Char) :
  endsWithAnchor (text ++ [c]) = (decide (c = '$') && decide (backslashesAtEnd text % 2 = 0))
  := by
  rw [endsWithAnchor, List.reverse_append, List.reverse_singleton, List.singleton_append]
  by_cases hc : c = '$'
  · subst hc
    rfl
  · simp [hc]

/-- An even number of backslashes at the end of a text does not matter behind it. -/
theorem backslashesAtEnd_append {first : List Char} (h : backslashesAtEnd first % 2 = 0)
    (second : List Char) :
  backslashesAtEnd (first ++ second) % 2 = backslashesAtEnd second % 2
  := by
  rw [backslashesAtEnd, backslashesAtEnd, List.reverse_append, List.takeWhile_append]
  split
  case isTrue hall =>
    rw [List.length_append, ← hall]
    rw [backslashesAtEnd] at h
    omega
  case isFalse => rfl

/-- Whether a text ends in no dollar sign but an escaped one, and its last backslash is not that of
an escape. -/
structure Unanchored (text : List Char) : Prop where
  even : backslashesAtEnd text % 2 = 0
  endsWithAnchor_eq : endsWithAnchor text = false

namespace Unanchored

theorem nil :
  Unanchored []
  := ⟨rfl, rfl⟩

theorem append {first second : List Char} (hfirst : Unanchored first)
    (hsecond : Unanchored second) :
  Unanchored (first ++ second)
  := by
  constructor
  · rw [backslashesAtEnd_append hfirst.even, hsecond.even]
  · obtain rfl | ⟨text, c, rfl⟩ := second.eq_nil_or_concat
    · rw [List.append_nil, hfirst.endsWithAnchor_eq]
    · have h := hsecond.endsWithAnchor_eq
      rw [List.concat_eq_append, endsWithAnchor_concat] at h
      rw [List.concat_eq_append, ← List.append_assoc, endsWithAnchor_concat,
        backslashesAtEnd_append hfirst.even, h]

theorem concat {c : Char} (hc : c ∉ ['\\', '$']) (text : List Char) :
  Unanchored (text ++ [c])
  := by
  simp only [List.mem_cons, List.not_mem_nil, or_false, not_or] at hc
  constructor
  · rw [backslashesAtEnd_concat hc.1]
  · simp [endsWithAnchor_concat, hc.2]

theorem escape (c : Char) :
  Unanchored ['\\', c]
  := by
  constructor
  · by_cases hc : c = '\\'
    · subst hc
      rfl
    · apply congrArg (· % 2) (backslashesAtEnd_concat hc ['\\'])
  · exact (endsWithAnchor_concat ['\\'] c).trans (Bool.and_false _)

end Unanchored

theorem Quantifier.unanchored (quantifier : Quantifier) :
  Unanchored quantifier.chars
  := by
  cases quantifier with
  | star => exact Unanchored.concat (by decide) []
  | plus => exact Unanchored.concat (by decide) []
  | optional => exact Unanchored.concat (by decide) []
  | exactly n => apply Unanchored.concat (by decide)
  | atLeast n =>
    have h : (Quantifier.atLeast n).chars = ('\x7b' :: digits n ++ [',']) ++ ['\x7d'] := by
      simp [Quantifier.chars]
    rw [h]
    apply Unanchored.concat (by decide)
  | between low high => apply Unanchored.concat (by decide)

theorem Atom.unanchored (atom : Atom) :
  Unanchored atom.chars
  := by
  cases atom with
  | literal c hc =>
    apply Unanchored.concat _ []
    intro hmem
    have hspecial : ['\\', '$'] ⊆ metacharacters := by decide
    exact hc (hspecial hmem)
  | escaped c => apply Unanchored.escape
  | dot => exact Unanchored.concat (by decide) []
  | shorthand negated kind => apply Unanchored.escape
  | brackets negated first others =>
    rw [Atom.chars, bracketed]
    apply Unanchored.concat (by decide)
  | group kind inner =>
    rw [Atom.chars]
    apply Unanchored.concat (by decide)

theorem Sequence.unanchored : (sequence : Sequence) → Unanchored sequence.chars
  | .nil => Unanchored.nil
  | .cons atom quantifier rest => by
    rw [Sequence.chars]
    apply Unanchored.append _ rest.unanchored
    apply atom.unanchored.append
    cases quantifier with
    | none => exact Unanchored.nil
    | some quantifier => apply quantifier.unanchored

/-! ### Converting an alternative -/

theorem Branch.head?_chars (branch : Branch) :
  branch.chars.head? = some '^' ↔ branch.atStart = true
  := by
  obtain ⟨atStart, body, atEnd⟩ := branch
  have htail : (if atEnd then ['$'] else []).head? ≠ some '^' := by cases atEnd <;> decide
  cases atStart with
  | true => exact ⟨fun _ => rfl, fun _ => rfl⟩
  | false =>
    constructor
    · intro h
      exact absurd h (body.head?_chars_ne (by decide) htail)
    · rintro ⟨⟩

theorem Branch.endsWithAnchor_chars (branch : Branch) :
  endsWithAnchor branch.chars = branch.atEnd
  := by
  obtain ⟨atStart, body, atEnd⟩ := branch
  have hunanchored : Unanchored ((if atStart then ['^'] else []) ++ body.chars) := by
    apply Unanchored.append _ body.unanchored
    cases atStart with
    | true => exact Unanchored.concat (by decide) []
    | false => exact Unanchored.nil
  cases atEnd with
  | true =>
    apply (endsWithAnchor_concat _ '$').trans
    simp [hunanchored.even]
  | false =>
    apply Eq.trans _ hunanchored.endsWithAnchor_eq
    simp [Branch.chars]

/-- Converting the text of a branch gives its piece. -/
theorem Branch.convertAlternative_chars (ignoreCase : Bool) (branch : Branch) :
  convertAlternative ignoreCase branch.chars = .ok (branch.piece ignoreCase)
  := by
  have hbody : convertFrom ignoreCase .outside branch.body.chars
      = .ok (branch.body.piece ignoreCase) := by
    have h := branch.body.convertFrom_chars ignoreCase (by simp : ([] : List Char).head? ≠ some '?')
    have hend : convertFrom ignoreCase .outside [] = .ok [] := by
      rw [convertFrom.eq_def]
      rfl
    rw [List.append_nil, hend, emit_ok, List.append_nil] at h
    exact h
  have hstrip : (if endsWithAnchor branch.chars then
        (if branch.chars.head? = some '^' then branch.chars.drop 1 else branch.chars).dropLast
      else if branch.chars.head? = some '^' then branch.chars.drop 1 else branch.chars)
      = branch.body.chars := by
    simp only [branch.head?_chars, branch.endsWithAnchor_chars]
    obtain ⟨atStart, body, atEnd⟩ := branch
    cases atStart <;> cases atEnd <;> simp [Branch.chars]
  rw [convertAlternative]
  simp only [hstrip, hbody]
  simp only [branch.head?_chars, branch.endsWithAnchor_chars, Bool.decide_eq_true, bind,
    Except.bind, Branch.piece]
  split
  · rfl
  · rfl

/-- Converting the text of a regular expression gives the pieces of its branches, with bars between
them, if the brackets in the names of its groups close. -/
theorem convert_chars (ignoreCase : Bool) (regex : Regex)
    (hnames : ∀ name ∈ regex.names, bracketsClose false name = true)
    (hcheck : check regex.chars = .ok ()) :
  convert ignoreCase regex.chars
    = .ok (['|'].intercalate (regex.branches.map (Branch.piece ignoreCase)))
  := by
  have hmap : (regex.branches.map Branch.chars).mapM (convertAlternative ignoreCase)
      = .ok (regex.branches.map (Branch.piece ignoreCase)) := by
    have hpieces : convertAlternative ignoreCase ∘ Branch.chars
        = fun branch => pure (branch.piece ignoreCase) := by
      funext branch
      apply branch.convertAlternative_chars
    rw [List.mapM_map, hpieces, List.mapM_pure]
    rfl
  rw [convert, alternatives_chars regex hnames, hmap, hcheck]
  rfl

end Regex

end Sift
