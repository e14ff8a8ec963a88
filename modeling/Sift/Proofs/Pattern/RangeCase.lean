import Sift.Proofs.Pattern.Brackets

/-!
# Ranges in both cases

When case is ignored, a letter in brackets is written in both cases, and so is a range between
letters of one case. All other ranges are written as they are, but for a letter at one end, which is
taken for a letter on its own. `Written` relates the members of brackets to the members that are
written for them, and `comesTo` says which ranges these make. They have both cases of each letter if
all ranges keep case: `Written.closed`. A range between letters of one case does, and so does one
whose letters the brackets have in the other case, too; the one from `B` to `z` does not when it
stands alone.
-/

namespace Sift.Pattern

open Dialect (Member rangesOf inRanges)

variable {c first last : Char}

theorem otherCase_of_not_isAlpha (hc : ¬ c.isAlpha = true) :
  otherCase c = c
  := by
  rw [isAlpha_iff] at hc
  rw [← Char.toNat_inj, toNat_otherCase]
  grind

/-! ### Ranges of a pattern -/

/-- A range in brackets: its ends, and the members behind it. -/
structure Span where
  first : Member
  last : Member
  behind : List Member

/-- The ranges that the members of brackets make. -/
def spans : List Member → List Span
  | first :: dash :: last :: behind =>
    if dash = ('-', false) then { first, last, behind } :: spans behind
    else spans (dash :: last :: behind)
  | _ => []

/-- Whether a member in front of some others is the beginning of a range. -/
def OpensRange : List Member → Prop
  | dash :: _ :: _ => dash = ('-', false)
  | _ => False

instance (members : List Member) : Decidable (OpensRange members) :=
  match members with
  | [] => isFalse id
  | [_] => isFalse id
  | dash :: _ :: _ => inferInstanceAs (Decidable (dash = ('-', false)))

/-- The character that a member of brackets stands for, unless a backslash makes a class of it. -/
def meant? : Member → Option Char
  | (c, false) => some c
  | (c, true) =>
    match bracketEscapePiece c with
    | .ok [d] => some d
    | .ok ['\\', d] => some d
    | _ => none

/-- The ranges that a range is written as when case is ignored. A letter at one end only is written
in both cases, so that the range begins with the second of them or ends with the first. -/
def spread (first last : Char) : List (Char × Char) :=
  if first.isAlpha then
    if last.isAlpha then
      if first.isLower = last.isLower then [(first, last), (otherCase first, otherCase last)]
      else [(first, last)]
    else [(first, first), (otherCase first, last)]
  else if last.isAlpha then [(first, last), (otherCase last, otherCase last)]
  else [(first, last)]

/-- The ranges that a member of brackets comes to on its own. -/
def alone (x : Member) : List (Char × Char) :=
  match meant? x with
  | some c => spread c c
  | none =>
    match bracketEscapePiece x.1 with
    | .ok piece => rangesOf (piece.map Regex.bare)
    | .error _ => []

/-- The ranges that the members of brackets come to when case is ignored. -/
def comesTo : List Member → List (Char × Char)
  | first :: dash :: last :: behind =>
    if dash = ('-', false) then
      match meant? first, meant? last with
      | some c, some d => spread c d ++ comesTo behind
      | _, _ => comesTo behind
    else alone first ++ comesTo (dash :: last :: behind)
  | x :: rest => alone x ++ comesTo rest
  | [] => []

/-- Whether some ranges have the letters of others in the other case. -/
def HasOtherCase (part whole : List (Char × Char)) : Prop :=
  ∀ c, c.isAlpha = true → inRanges part c = true → inRanges whole (otherCase c) = true

/-- There are no letters but the first ones. -/
theorem hasOtherCase_iff {part whole : List (Char × Char)} :
  HasOtherCase part whole ↔ ∀ n < 123, (Char.ofNat n).isAlpha = true →
    inRanges part (Char.ofNat n) = true → inRanges whole (otherCase (Char.ofNat n)) = true
  := by
  constructor
  · intro h n _
    exact h (Char.ofNat n)
  · intro h c hc
    have hn : c.toNat < 123 := by
      rw [isAlpha_iff] at hc
      omega
    have hletter := h c.toNat hn
    rw [Char.ofNat_toNat] at hletter
    exact hletter hc

instance (part whole : List (Char × Char)) : Decidable (HasOtherCase part whole) :=
  decidable_of_iff' _ hasOtherCase_iff

/-- Whether a range keeps case in brackets that come to the ranges `whole`: it is between letters of
one case, or it has all letters, or the brackets have its letters in the other case, too. In the last
case a letter at its end alone must not begin a range: in `!-A-c` the second range is the one that is
converted, and the first the one that is read. -/
def KeepsCase (whole : List (Char × Char)) (behind : List Member) (first last : Char) : Prop :=
  first.isAlpha = true ∧ last.isAlpha = true ∧ first.isLower = last.isLower
    ∨ first < 'A' ∧ 'z' ≤ last
    ∨ (first.isAlpha = true ∨ last.isAlpha = false ∨ ¬ OpensRange behind)
      ∧ HasOtherCase (spread first last) whole

instance (whole : List (Char × Char)) (behind : List Member) (first last : Char) :
    Decidable (KeepsCase whole behind first last) :=
  inferInstanceAs (Decidable (_ ∨ _ ∨ _ ∧ _))

/-- Whether both ends of a range stand for characters, and the range between these keeps case. -/
def Span.KeepsCase (whole : List (Char × Char)) (span : Span) : Prop :=
  ∃ first ∈ meant? span.first, ∃ last ∈ meant? span.last,
    Pattern.KeepsCase whole span.behind first last

/-- An end stands for one character at most, so that not all of them need be tried. -/
instance (whole : List (Char × Char)) (span : Span) : Decidable (span.KeepsCase whole) :=
  have (first : Char) :
      Decidable (∃ last ∈ meant? span.last, KeepsCase whole span.behind first last) :=
    Option.decidableExistsMem _
  Option.decidableExistsMem (meant? span.first)

/-- Whether all ranges that some members make keep case among them. -/
def MembersKeepCase (members : List Member) : Prop :=
  ∀ span ∈ spans members, span.KeepsCase (comesTo members)

instance (members : List Member) : Decidable (MembersKeepCase members) :=
  inferInstanceAs (Decidable (∀ span ∈ spans members, span.KeepsCase (comesTo members)))

-- `B-z` has `a` but not `A`, and `A-~` is written as `Aa-~`, which has `b` but not `B`
example : MembersKeepCase ("a-~".toList.map Regex.bare)
    ∧ MembersKeepCase ("!-A".toList.map Regex.bare)
    ∧ MembersKeepCase ("B-zA".toList.map Regex.bare)
    ∧ ¬ MembersKeepCase ("B-z".toList.map Regex.bare)
    ∧ ¬ MembersKeepCase ("A-~".toList.map Regex.bare) := by
  decide +kernel

/-! ### Ranges for the engine -/

theorem inRanges_append {ranges others : List (Char × Char)} :
  inRanges (ranges ++ others) c = true ↔ inRanges ranges c = true ∨ inRanges others c = true
  := by
  rw [inRanges, List.any_append, Bool.or_eq_true]
  rfl

/-- Whether some ranges have all letters. -/
def HasLetters (ranges : List (Char × Char)) : Prop :=
  ∀ c, c.isAlpha = true → inRanges ranges c = true

theorem HasLetters.append {ranges : List (Char × Char)} (h : HasLetters ranges)
    (part : List (Char × Char)) :
  HasLetters (part ++ ranges)
  := fun c hc => inRanges_append.mpr (.inr (h c hc))

theorem hasLetters_cons (hfirst : first < 'A') (hlast : 'z' ≤ last) (others : List (Char × Char)) :
  HasLetters ((first, last) :: others)
  := by
  intro c hc
  rw [isAlpha_iff] at hc
  rw [Regex.inRanges_cons]
  left
  have hfirst : first.toNat < 65 := hfirst
  have hlast : 122 ≤ last.toNat := hlast
  simp only [le_iff_toNat_le]
  omega

/-- Whether some ranges have with each letter the one in the other case. -/
def Closed (ranges : List (Char × Char)) : Prop :=
  ∀ c, inRanges ranges c = true → inRanges ranges (otherCase c) = true

namespace Closed

variable {ranges others : List (Char × Char)}

theorem nil :
  Closed []
  := by
  rintro c ⟨⟩

/-- A range between letters of one case together with the same range in the other case. -/
theorem both (hfirst : first.isAlpha = true) (hlast : last.isAlpha = true)
    (hcase : first.isLower = last.isLower) :
  Closed [(first, last), (otherCase first, otherCase last)]
  := by
  intro c hc
  rw [Bool.eq_iff_iff, isLower_iff, isLower_iff] at hcase
  rw [isAlpha_iff] at hfirst hlast
  simp only [Regex.inRanges_cons, Regex.inRanges_nil, le_iff_toNat_le, toNat_otherCase] at hc ⊢
  grind

theorem one (hc : c.isAlpha = false) :
  Closed [(c, c)]
  := by
  intro d hd
  rw [Regex.inRanges_cons, Regex.inRanges_nil, Regex.le_and_le_iff] at hd
  obtain rfl : c = d := by simpa using hd
  rw [otherCase_of_not_isAlpha (Bool.eq_false_iff.mp hc), Regex.inRanges_cons,
    Regex.le_and_le_iff]
  exact .inl rfl

theorem of_hasOtherCase (h : HasOtherCase ranges ranges) :
  Closed ranges
  := by
  intro c hc
  by_cases halpha : c.isAlpha = true
  case pos => exact h c halpha hc
  case neg => rwa [otherCase_of_not_isAlpha halpha]

theorem of_hasLetters (h : HasLetters ranges) :
  Closed ranges
  := of_hasOtherCase fun _ hc _ => h _ (isAlpha_otherCase.trans hc)

theorem shorthand (kind : Regex.Shorthand) :
  Closed kind.ranges
  := by
  intro c hc
  rw [kind.inRanges_ranges] at hc ⊢
  by_cases halpha : c.isAlpha = true
  case pos =>
    apply Regex.Shorthand.has_of_otherCase (isAlpha_otherCase.trans halpha)
    rwa [otherCase_otherCase]
  case neg => rwa [otherCase_of_not_isAlpha halpha]

/-- A class of such ranges does not tell letters that are the same but for case. -/
theorem has_iff (h : Closed ranges) {negated : Bool} {c d : Char} (heq : c.toLower = d.toLower) :
  (Dialect.Class.mk negated ranges).has c = true ↔ (Dialect.Class.mk negated ranges).has d = true
  := by
  have hranges : inRanges ranges c = true ↔ inRanges ranges d = true := by
    obtain rfl | ⟨-, rfl⟩ := toLower_eq_toLower_iff.mp heq
    · rfl
    · constructor
      · intro hd
        rw [← otherCase_otherCase (c := d)]
        exact h _ hd
      · exact h d
  rw [Dialect.Class.has_iff, Dialect.Class.has_iff, hranges]

end Closed

/-! ### Members -/

/-- The text of a member of brackets. -/
def memberText : Member → List Char
  | (c, false) => [c]
  | (c, true) => ['\\', c]

/-- Whether a member is neither an open escape nor the end of the brackets. -/
def IsMember (x : Member) : Prop :=
  x.2 = false → x.1 ≠ '\\' ∧ x.1 ≠ ']'

/-- Whether one member is written for another one, which stands for a character but no letter. -/
structure Stands (x y : Member) : Prop where
  meant : meant? x = some y.1
  noLetter : y.1.isAlpha = false
  sign : ∀ c ∈ ['-', '^'], x = (c, false) ↔ y = (c, false)
  left : IsMember x
  right : IsMember y

/-- The members of brackets, and what is written for them when case is ignored. -/
inductive Written : List Member → List Member → Prop where
  | nil : Written [] []
  | range {first last : Char} {members written : List Member} :
    first.isAlpha = true → last.isAlpha = true → Written members written →
    Written ((first, false) :: ('-', false) :: (last, false) :: members)
      ((rangePiece true first last).map Regex.bare ++ written)
  /-- A letter that begins no range between letters. -/
  | letter {c : Char} {members written : List Member} : c.isAlpha = true →
    (∀ last rest, members = ('-', false) :: (last, false) :: rest → last.isAlpha = false) →
    Written members written →
    Written ((c, false) :: members) ((letterPiece true c).map Regex.bare ++ written)
  | other {x y : Member} {members written : List Member} : Stands x y → Written members written →
    Written (x :: members) (y :: written)
  | shorthand (kind : Regex.Shorthand) {members written : List Member} : Written members written →
    Written ((kind.letter false, true) :: members) (kind.members.map Regex.bare ++ written)

theorem rangesOf_of_not_opensRange {x : Member} {rest : List Member} (h : ¬ OpensRange rest) :
  rangesOf (x :: rest) = (x.1, x.1) :: rangesOf rest
  := by
  match rest with
  | [] => rfl
  | [_] => rfl
  | dash :: last :: rest =>
    have hdash : dash ≠ ('-', false) := h
    rw [rangesOf, if_neg hdash]

theorem spans_of_not_opensRange {x : Member} {rest : List Member} (h : ¬ OpensRange rest) :
  spans (x :: rest) = spans rest
  := by
  match rest with
  | [] => rfl
  | [_] => rfl
  | dash :: last :: rest =>
    have hdash : dash ≠ ('-', false) := h
    rw [spans, if_neg hdash]

theorem comesTo_of_not_opensRange {x : Member} {rest : List Member} (h : ¬ OpensRange rest) :
  comesTo (x :: rest) = alone x ++ comesTo rest
  := by
  match rest with
  | [] => rfl
  | [_] => rfl
  | dash :: last :: rest =>
    have hdash : dash ≠ ('-', false) := h
    rw [comesTo, if_neg hdash]

theorem spans_span (x last : Member) (rest : List Member) :
  spans (x :: ('-', false) :: last :: rest) = { first := x, last, behind := rest } :: spans rest
  := by
  rw [spans, if_pos rfl]

theorem comesTo_span {x last : Member} {d : Char} (hc : meant? x = some c)
    (hd : meant? last = some d) (rest : List Member) :
  comesTo (x :: ('-', false) :: last :: rest) = spread c d ++ comesTo rest
  := by
  rw [comesTo, if_pos rfl, hc, hd]

theorem exists_of_opensRange {rest : List Member} (h : OpensRange rest) :
  ∃ last others, rest = ('-', false) :: last :: others
  := by
  match rest with
  | [] => cases h
  | [_] => cases h
  | dash :: last :: others =>
    have hdash : dash = ('-', false) := h
    exact ⟨last, others, by rw [hdash]⟩

theorem meant?_shorthand (kind : Regex.Shorthand) :
  meant? (kind.letter false, true) = none
  := by
  cases kind <;> rfl

namespace Written

variable {members written : List Member} {x : Member}

/-- The signs that matter at the beginning are written for themselves only. -/
theorem head?_eq (h : Written members written) (hc : c ∈ ['-', '^']) :
  written.head? = some (c, false) ↔ members.head? = some (c, false)
  := by
  cases h with
  | nil => rfl
  | range => rfl
  | letter => rfl
  | other hstands => simpa using (hstands.sign c hc).symm
  | shorthand kind =>
    obtain rfl | rfl : c = '-' ∨ c = '^' := by simpa using hc
    all_goals cases kind <;> simp [Regex.Shorthand.members, Regex.bare, spaceMembers, digitMembers,
      wordMembers]

theorem other_inv (h : Written (x :: members) written) (hx : meant? x = some c)
    (hc : c.isAlpha = false) :
  ∃ y rest, written = y :: rest ∧ Stands x y ∧ Written members rest
  := by
  cases h with
  | range hfirst =>
    cases hx
    rw [hfirst] at hc
    cases hc
  | letter hletter =>
    cases hx
    rw [hletter] at hc
    cases hc
  | other hstands hrest => exact ⟨_, _, rfl, hstands, hrest⟩
  | shorthand kind =>
    rw [meant?_shorthand] at hx
    cases hx

theorem dash_inv (h : Written (('-', false) :: members) written) :
  ∃ rest, written = ('-', false) :: rest ∧ Written members rest
  := by
  obtain ⟨y, rest, rfl, hstands, hrest⟩ := h.other_inv rfl (by decide : ('-').isAlpha = false)
  obtain rfl := (hstands.sign '-' (by decide)).mp rfl
  exact ⟨rest, rfl, hrest⟩

/-- What is written begins no range where the members do not. -/
theorem not_opensRange (h : Written members written) (hmembers : ¬ OpensRange members) :
  ¬ OpensRange written
  := by
  intro hopens
  obtain ⟨last, others, rfl⟩ := exists_of_opensRange hopens
  obtain ⟨rest, rfl⟩ := List.head?_eq_some_iff.mp ((h.head?_eq (by decide)).mp rfl)
  obtain ⟨_, heq, hrest⟩ := h.dash_inv
  cases heq
  cases rest with
  | nil => cases hrest
  | cons y rest => exact hmembers rfl

end Written

/-- Behind a backslash no member stands for a letter. -/
theorem isAlpha_of_meant? {d : Char} (h : meant? (c, true) = some d) :
  d.isAlpha = false
  := by
  rw [meant?] at h
  have hpiece : ∃ piece, bracketEscapePiece c = .ok piece := by
    cases hc : bracketEscapePiece c with
    | ok piece => exact ⟨piece, rfl⟩
    | error fault => simp [hc] at h
  obtain ⟨piece, hpiece⟩ := hpiece
  rw [hpiece] at h
  revert hpiece
  fun_cases bracketEscapePiece c <;> intro hpiece <;> cases hpiece
  case case1 | case2 | case3 => cases h
  case case5 | case6 | case7 | case8 =>
    cases h
    decide
  case case10 halphanum =>
    cases h
    rw [Char.isAlphanum, Bool.or_eq_true, not_or, Bool.not_eq_true] at halphanum
    exact halphanum.1

/-! ### Ranges that are written -/

/-- Only a bare letter stands for a letter. -/
theorem eq_of_meant? {x : Member} (h : meant? x = some c) (hc : c.isAlpha = true) :
  x = (c, false)
  := by
  obtain ⟨d, escaped⟩ := x
  cases escaped with
  | false =>
    cases h
    rfl
  | true =>
    rw [isAlpha_of_meant? h] at hc
    cases hc

section Spread

variable {written : List Member}

theorem spread_self (hc : c.isAlpha = true) :
  spread c c = [(c, c), (otherCase c, otherCase c)]
  := by
  simp [spread, hc]

theorem spread_of_letter (hfirst : first.isAlpha = true) (hlast : last.isAlpha = false) :
  spread first last = [(first, first), (otherCase first, last)]
  := by
  simp [spread, hfirst, hlast]

theorem spread_to_letter (hfirst : first.isAlpha = false) (hlast : last.isAlpha = true) :
  spread first last = [(first, last), (otherCase last, otherCase last)]
  := by
  simp [spread, hfirst, hlast]

theorem spread_of_not_letter (hfirst : first.isAlpha = false) (hlast : last.isAlpha = false) :
  spread first last = [(first, last)]
  := by
  simp [spread, hfirst, hlast]

theorem rangesOf_rangePiece (hfirst : first.isAlpha = true) (hlast : last.isAlpha = true) :
  rangesOf ((rangePiece true first last).map Regex.bare ++ written)
    = spread first last ++ rangesOf written
  := by
  by_cases hsame : first.isLower = last.isLower
  case pos =>
    simp only [rangePiece, spread, hfirst, hlast, hsame, decide_true, Bool.and_self, if_true]
    exact (Regex.rangesOf_range _ _ _).trans (congrArg _ (Regex.rangesOf_range _ _ _))
  case neg =>
    simp only [rangePiece, spread, hfirst, hlast, hsame, decide_false, Bool.and_false,
      Bool.false_eq_true, if_true, if_false]
    exact Regex.rangesOf_range _ _ _

/-- The second of the two cases in which a letter is written begins a range, if any does. -/
theorem rangesOf_letterPiece (hc : c.isAlpha = true) :
  rangesOf ((letterPiece true c).map Regex.bare ++ written)
    = (c, c) :: rangesOf ((otherCase c, false) :: written)
  := by
  have hother : ¬ OpensRange ((otherCase c, false) :: written) := by
    intro hopens
    obtain ⟨_, _, heq⟩ := exists_of_opensRange hopens
    have halpha := isAlpha_otherCase.trans hc
    rw [(Prod.mk.inj (List.cons.inj heq).1).1] at halpha
    cases halpha
  exact rangesOf_of_not_opensRange hother

theorem rangesOf_shorthand (kind : Regex.Shorthand) (h : ¬ OpensRange written) :
  rangesOf (kind.members.map Regex.bare ++ written) = kind.ranges ++ rangesOf written
  := by
  cases kind with
  | digit => exact Regex.rangesOf_range _ _ _
  | word =>
    change rangesOf (('A', false) :: ('-', false) :: ('Z', false) :: ('a', false) :: ('-', false)
      :: ('z', false) :: ('_', false) :: written) = _
    rw [Regex.rangesOf_range, Regex.rangesOf_range, rangesOf_of_not_opensRange h]
    rfl
  | space =>
    change rangesOf ((' ', false) :: ('\n', false) :: ('\t', false) :: ('\r', false) :: written) = _
    rw [Regex.rangesOf_cons (by simp), Regex.rangesOf_cons (by simp), Regex.rangesOf_cons (by simp),
      rangesOf_of_not_opensRange h]
    rfl

theorem alone_letter (hc : c.isAlpha = true) :
  alone (c, false) = [(c, c), (otherCase c, otherCase c)]
  := spread_self hc

theorem alone_of_meant? {x : Member} (hx : meant? x = some c) (hc : c.isAlpha = false) :
  alone x = [(c, c)]
  := by
  rw [alone, hx]
  exact spread_of_not_letter hc hc

theorem alone_shorthand (kind : Regex.Shorthand) :
  alone (kind.letter false, true) = kind.ranges
  := by
  cases kind <;> rfl

end Spread

/-- A shorthand stands for no character, so that no range that keeps case begins with it. -/
theorem not_opensRange_of_shorthand {kind : Regex.Shorthand} {members : List Member}
    {whole : List (Char × Char)}
    (hkeeps : ∀ span ∈ spans ((kind.letter false, true) :: members), span.KeepsCase whole) :
  ¬ OpensRange members
  := by
  intro hopens
  obtain ⟨last, others, rfl⟩ := exists_of_opensRange hopens
  rw [spans_span, List.forall_mem_cons] at hkeeps
  obtain ⟨⟨_, hfirst, -⟩, -⟩ := hkeeps
  rw [meant?_shorthand] at hfirst
  cases hfirst

/-- A range that begins before the letters and ends behind them is written with all letters. -/
theorem hasLetters_spread (hfirst : first < 'A') (hlast : 'z' ≤ last) :
  HasLetters (spread first last)
  := by
  have hletter : ¬ first.isAlpha = true := by
    have hfirst : first.toNat < 65 := hfirst
    rw [isAlpha_iff]
    omega
  rw [spread, if_neg hletter]
  split
  · exact hasLetters_cons hfirst hlast _
  · exact hasLetters_cons hfirst hlast _

/-- A letter that begins no range between letters ends none that begins with it. -/
theorem not_isAlpha_of_letter {last : Member} {members : List Member} {d : Char}
    (hmembers : ∀ other rest, ('-', false) :: last :: members = ('-', false) :: (other, false) :: rest →
      other.isAlpha = false) (hd : meant? last = some d) :
  d.isAlpha = false
  := by
  rw [Bool.eq_false_iff]
  intro hletter
  obtain rfl := eq_of_meant? hd hletter
  rw [hmembers d members rfl] at hletter
  cases hletter

namespace Written

variable {members written : List Member} {x last : Member}

/-- A letter is written in both cases, unless a range begins with it. -/
theorem letter_inv (h : Written ((c, false) :: members) written) (hc : c.isAlpha = true) :
  (∃ rest, written = (c, false) :: rest)
    ∧ (¬ OpensRange members → ∃ rest, written = (c, false) :: (otherCase c, false) :: rest
      ∧ Written members rest)
  := by
  cases h with
  | range => exact ⟨⟨_, rfl⟩, fun hopens => absurd rfl hopens⟩
  | letter _ _ hrest => exact ⟨⟨_, rfl⟩, fun _ => ⟨_, rfl, hrest⟩⟩
  | other hstands =>
    have hletter := hstands.noLetter
    rw [← Option.some.inj hstands.meant, hc] at hletter
    cases hletter

/-- A range behind a character that is no letter is written as a range up to the same character. -/
theorem rangesOf_span {y : Member} (hy : y.1.isAlpha = false)
    (h : Written (('-', false) :: last :: members) written) {d : Char} (hd : meant? last = some d)
    (hopens : d.isAlpha = true → ¬ OpensRange members) :
  ∃ rest, Written members rest ∧ rangesOf (y :: written) = spread y.1 d ++ rangesOf rest
  := by
  obtain ⟨rest, rfl, hrest⟩ := h.dash_inv
  by_cases hletter : d.isAlpha = true
  case pos =>
    obtain rfl := eq_of_meant? hd hletter
    obtain ⟨others, rfl, hothers⟩ := (hrest.letter_inv hletter).2 (hopens hletter)
    use others, hothers
    rw [Regex.rangesOf_range, spread_to_letter hy hletter,
      rangesOf_of_not_opensRange (hothers.not_opensRange (hopens hletter))]
    rfl
  case neg =>
    rw [Bool.not_eq_true] at hletter
    obtain ⟨z, others, rfl, hstands, hothers⟩ := hrest.other_inv hd hletter
    cases hstands.meant.symm.trans hd
    use others, hothers
    rw [Regex.rangesOf_range, spread_of_not_letter hy hletter]
    rfl

/-- A range behind a letter that is no range between letters begins with the letter in the other
case. -/
theorem rangesOf_letter_span (hc : c.isAlpha = true)
    (h : Written (('-', false) :: last :: members) written) {d : Char} (hd : meant? last = some d)
    (hletter : d.isAlpha = false) :
  ∃ rest, Written members rest
    ∧ rangesOf ((letterPiece true c).map Regex.bare ++ written) = spread c d ++ rangesOf rest
  := by
  obtain ⟨rest, rfl, hrest⟩ := h.dash_inv
  obtain ⟨z, others, rfl, hstands, hothers⟩ := hrest.other_inv hd hletter
  cases hstands.meant.symm.trans hd
  use others, hothers
  rw [rangesOf_letterPiece hc, Regex.rangesOf_range, spread_of_letter hc hletter]
  rfl

/-- What is written for some members are the ranges that they come to, unless one of these has all
letters. -/
theorem rangesOf_eq_or (h : Written members written) {whole : List (Char × Char)}
    (hkeeps : ∀ span ∈ spans members, span.KeepsCase whole) :
  rangesOf written = comesTo members ∨ HasLetters (rangesOf written)
  := by
  induction hlength : members.length using Nat.strongRecOn generalizing members written with
  | ind n ih =>
    subst hlength
    have hthen {others rest : List Member} (hrest : Written others rest)
        (hkeeps : ∀ span ∈ spans others, span.KeepsCase whole)
        (hshorter : others.length < members.length) (part : List (Char × Char)) :
        part ++ rangesOf rest = part ++ comesTo others ∨ HasLetters (part ++ rangesOf rest) :=
      (ih _ hshorter hrest hkeeps rfl).imp (congrArg _) fun h => h.append part
    cases h with
    | nil => exact .inl rfl
    | range hfirst hlast hrest =>
      rw [spans_span, List.forall_mem_cons] at hkeeps
      rw [rangesOf_rangePiece hfirst hlast, comesTo_span rfl rfl]
      exact hthen hrest hkeeps.2 (by simp; omega) _
    | @letter c members written hc hmembers hrest =>
      by_cases hopens : OpensRange members
      case pos =>
        obtain ⟨last, others, rfl⟩ := exists_of_opensRange hopens
        rw [spans_span, List.forall_mem_cons] at hkeeps
        obtain ⟨⟨_, hfirst, d, hd, -⟩, hkeeps⟩ := hkeeps
        cases hfirst
        obtain ⟨rest, hrest, heq⟩ :=
          hrest.rangesOf_letter_span hc hd (not_isAlpha_of_letter hmembers hd)
        rw [heq, comesTo_span rfl hd]
        exact hthen hrest hkeeps (by simp; omega) _
      case neg =>
        rw [spans_of_not_opensRange hopens] at hkeeps
        rw [rangesOf_letterPiece hc, rangesOf_of_not_opensRange (hrest.not_opensRange hopens),
          comesTo_of_not_opensRange hopens, alone_letter hc]
        exact hthen hrest hkeeps (by simp) [(c, c), (otherCase c, otherCase c)]
    | @other x y members written hstands hrest =>
      by_cases hopens : OpensRange members
      case pos =>
        obtain ⟨last, others, rfl⟩ := exists_of_opensRange hopens
        rw [spans_span, List.forall_mem_cons] at hkeeps
        obtain ⟨⟨_, hfirst, d, hd, hcase⟩, hkeeps⟩ := hkeeps
        cases hstands.meant.symm.trans hfirst
        by_cases hbehind : d.isAlpha = true ∧ OpensRange others
        case pos =>
          obtain ⟨hletter, hbehind⟩ := hbehind
          obtain ⟨hletters, -⟩ | ⟨hle, hge⟩ | ⟨hnone, -⟩ := hcase
          · rw [hstands.noLetter] at hletters
            cases hletters
          · right
            obtain rfl := eq_of_meant? hd hletter
            obtain ⟨rest, rfl, hlast⟩ := hrest.dash_inv
            obtain ⟨⟨rest, rfl⟩, -⟩ := hlast.letter_inv hletter
            rw [Regex.rangesOf_range]
            exact hasLetters_cons hle hge _
          · simp [hstands.noLetter, hletter, hbehind] at hnone
        case neg =>
          obtain ⟨rest, hrest, heq⟩ := hrest.rangesOf_span hstands.noLetter hd (not_and.mp hbehind)
          rw [heq, comesTo_span hstands.meant hd]
          exact hthen hrest hkeeps (by simp; omega) _
      case neg =>
        rw [spans_of_not_opensRange hopens] at hkeeps
        rw [rangesOf_of_not_opensRange (hrest.not_opensRange hopens),
          comesTo_of_not_opensRange hopens, alone_of_meant? hstands.meant hstands.noLetter]
        exact hthen hrest hkeeps (by simp) [(y.1, y.1)]
    | shorthand kind hrest =>
      have hopens := not_opensRange_of_shorthand hkeeps
      rw [spans_of_not_opensRange hopens] at hkeeps
      rw [rangesOf_shorthand kind (hrest.not_opensRange hopens), comesTo_of_not_opensRange hopens,
        alone_shorthand]
      exact hthen hrest hkeeps (by simp) _

end Written

/-- A member on its own comes to both cases of each letter. -/
theorem closed_alone (x : Member) :
  Closed (alone x)
  := by
  cases hx : meant? x with
  | some c =>
    cases hc : c.isAlpha with
    | true =>
      rw [eq_of_meant? hx hc, alone_letter hc]
      exact .both hc hc rfl
    | false =>
      rw [alone_of_meant? hx hc]
      exact .one hc
  | none =>
    obtain ⟨c, escaped⟩ := x
    cases escaped with
    | false => cases hx
    | true =>
      rw [alone, hx]
      rw [meant?] at hx
      revert hx
      fun_cases bracketEscapePiece c <;> intro hx
      case case1 => exact .shorthand .space
      case case2 => exact .shorthand .digit
      case case3 => exact .shorthand .word
      case case4 | case9 => exact .nil
      case case5 | case6 | case7 | case8 | case10 => cases hx

namespace HasOtherCase

variable {part other whole : List (Char × Char)}

theorem append (h : HasOtherCase part whole) (hother : HasOtherCase other whole) :
  HasOtherCase (part ++ other) whole
  := by
  intro c hc hin
  rw [inRanges_append] at hin
  exact hin.elim (h c hc) (hother c hc)

theorem of_closed (h : Closed part)
    (hwhole : ∀ c, inRanges part c = true → inRanges whole c = true) :
  HasOtherCase part whole
  := fun c _ hc => hwhole _ (h c hc)

end HasOtherCase

/-- The letters of ranges that keep case stand in the brackets in both cases. -/
theorem hasOtherCase_comesTo {members : List Member} {whole : List (Char × Char)}
    (hkeeps : ∀ span ∈ spans members, span.KeepsCase whole)
    (hwhole : ∀ c, inRanges (comesTo members) c = true → inRanges whole c = true) :
  HasOtherCase (comesTo members) whole
  := by
  induction hlength : members.length using Nat.strongRecOn generalizing members with
  | ind n ih =>
    subst hlength
    cases members with
    | nil => rintro c - ⟨⟩
    | cons x rest =>
      by_cases hopens : OpensRange rest
      case pos =>
        obtain ⟨last, others, rfl⟩ := exists_of_opensRange hopens
        rw [spans_span, List.forall_mem_cons] at hkeeps
        obtain ⟨⟨c, hc, d, hd, hcase⟩, hkeeps⟩ := hkeeps
        rw [comesTo_span hc hd] at hwhole ⊢
        simp only [inRanges_append] at hwhole
        apply HasOtherCase.append
        · obtain ⟨hfirst, hlast, hsame⟩ | ⟨hle, hge⟩ | ⟨-, hcase⟩ := hcase
          · apply HasOtherCase.of_closed _ fun e he => hwhole e (.inl he)
            simp only [spread, hfirst, hlast, hsame, if_true]
            exact .both hfirst hlast hsame
          · apply HasOtherCase.of_closed _ fun e he => hwhole e (.inl he)
            exact .of_hasLetters (hasLetters_spread hle hge)
          · exact hcase
        · exact ih _ (by simp; omega) hkeeps (fun e he => hwhole e (.inr he)) rfl
      case neg =>
        rw [spans_of_not_opensRange hopens] at hkeeps
        rw [comesTo_of_not_opensRange hopens] at hwhole ⊢
        simp only [inRanges_append] at hwhole
        apply HasOtherCase.append
        · exact .of_closed (closed_alone x) fun e he => hwhole e (.inl he)
        · exact ih _ (Nat.lt_succ_self _) hkeeps (fun e he => hwhole e (.inr he)) rfl

/-- What is written has both cases of each letter if all ranges keep case. -/
theorem Written.closed {members written : List Member} (h : Written members written)
    (hkeeps : MembersKeepCase members) :
  Closed (rangesOf written)
  := by
  obtain heq | hletters := h.rangesOf_eq_or hkeeps
  · rw [heq]
    exact .of_hasOtherCase (hasOtherCase_comesTo hkeeps fun _ => id)
  · exact .of_hasLetters hletters

end Sift.Pattern
