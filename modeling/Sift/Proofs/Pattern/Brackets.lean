import Sift.Proofs.Pattern.Conversion
import Sift.Proofs.Pattern.Dialect
import Sift.Proofs.Pattern.Letter

/-!
# Brackets for the engine

What is meant in brackets of a regular expression, once the engine has read what they are converted
to: the characters that are the same as some member but for case, if case is ignored.
`Member.ranges` are the ranges that the engine makes of a member, `rangesOf_members` says that it
does so, and `Member.inRanges_ranges` that they hold what is meant.
-/

namespace Sift.Regex

open Pattern Dialect

/-! ### Characters but for case -/

section

variable {ignoreCase : Bool} {c d : Char}

theorem same_iff :
  Same ignoreCase c d ↔ c = d ∨ ignoreCase = true ∧ d.isAlpha = true ∧ c = otherCase d
  := by
  rw [Same, toLower_eq_toLower_iff]
  grind

theorem isSomeOf_iff {kind : Char → Prop} :
  IsSomeOf ignoreCase kind d ↔ kind d ∨ ignoreCase = true ∧ d.isAlpha = true ∧ kind (otherCase d)
  := by
  simp only [IsSomeOf, same_iff]
  grind

end

/-! ### Members of brackets -/

theorem inRanges_nil (c : Char) :
  inRanges [] c = false
  := rfl

theorem inRanges_cons {range : Char × Char} {ranges : List (Char × Char)} {c : Char} :
  inRanges (range :: ranges) c = true ↔ range.1 ≤ c ∧ c ≤ range.2 ∨ inRanges ranges c = true
  := by
  simp [inRanges]

theorem inRanges_flatMap {α : Type} {items : List α} {f : α → List (Char × Char)} {c : Char} :
  inRanges (items.flatMap f) c = true ↔ ∃ item ∈ items, inRanges (f item) c = true
  := by
  simp [inRanges, List.any_flatMap]

theorem rangesOf_cons {first : Dialect.Member} {rest : List Dialect.Member}
    (h : rest.head? ≠ some ('-', false)) :
  rangesOf (first :: rest) = (first.1, first.1) :: rangesOf rest
  := by
  match rest with
  | [] => rfl
  | [_] => rfl
  | dash :: last :: rest =>
    have hdash : dash ≠ ('-', false) := by simpa using h
    rw [rangesOf, if_neg hdash]

theorem rangesOf_range (first last : Dialect.Member) (rest : List Dialect.Member) :
  rangesOf (first :: ('-', false) :: last :: rest) = (first.1, last.1) :: rangesOf rest
  := by
  rw [rangesOf, if_pos rfl]

/-- The ranges that a class stands for. -/
def Shorthand.ranges : Shorthand → List (Char × Char)
  | digit => [('0', '9')]
  | word => [('A', 'Z'), ('a', 'z'), ('_', '_')]
  | space => [(' ', ' '), ('\n', '\n'), ('\t', '\t'), ('\r', '\r')]

/-- The ranges that the engine reads in brackets. -/
def Member.ranges (ignoreCase : Bool) : Member → List (Char × Char)
  | literal c _ =>
    (c, c) :: if c.isAlpha && ignoreCase then [(otherCase c, otherCase c)] else []
  | shorthand kind => kind.ranges
  | range first last _ =>
    (first, last) :: if first.isAlpha && ignoreCase then [(otherCase first, otherCase last)] else []

theorem le_and_le_iff {c d : Char} :
  c ≤ d ∧ d ≤ c ↔ c = d
  := by
  rw [le_iff_toNat_le, le_iff_toNat_le, ← Char.toNat_inj]
  omega

theorem Shorthand.inRanges_ranges (kind : Shorthand) (d : Char) :
  inRanges kind.ranges d = true ↔ kind.Has d
  := by
  cases kind with
  | digit =>
    simp only [ranges, Has, inRanges_cons, inRanges_nil, isDigit_iff, le_iff_toNat_le]
    simp
  | word =>
    simp only [ranges, Has, inRanges_cons, inRanges_nil, isAlpha_iff, le_iff_toNat_le,
      ← Char.toNat_inj]
    simp
    omega
  | space =>
    simp only [ranges, Has, inRanges_cons, inRanges_nil, le_and_le_iff]
    simp [eq_comm]

/-- A class has a letter in both cases or in none. -/
theorem Shorthand.has_of_otherCase {kind : Shorthand} {d : Char} (hd : d.isAlpha = true)
    (h : kind.Has (otherCase d)) :
  kind.Has d
  := by
  have halpha : (otherCase d).isAlpha = true := isAlpha_otherCase.trans hd
  cases kind with
  | digit =>
    rw [Has, isDigit_iff] at h
    rw [isAlpha_iff] at halpha
    omega
  | word => exact .inl hd
  | space =>
    exact absurd h (not_mem_of_all halpha (by decide))

/-- A letter is read in both cases if case is ignored. -/
theorem inRanges_letter (ignoreCase : Bool) (c d : Char) :
  inRanges ((c, c) :: if c.isAlpha && ignoreCase then [(otherCase c, otherCase c)] else []) d = true
    ↔ Same ignoreCase c d
  := by
  rw [same_iff, inRanges_cons, le_and_le_iff]
  apply or_congr_right
  by_cases hcase : c.isAlpha = true ∧ ignoreCase = true
  · obtain ⟨hc, rfl⟩ := hcase
    simp only [hc, Bool.and_self, if_true, inRanges_cons, inRanges_nil, le_and_le_iff, true_and,
      Bool.false_eq_true, or_false]
    constructor
    · rintro rfl
      rw [isAlpha_otherCase, otherCase_otherCase]
      exact ⟨hc, rfl⟩
    · rintro ⟨-, rfl⟩
      rw [otherCase_otherCase]
  · rw [← Bool.and_eq_true] at hcase
    rw [if_neg hcase, inRanges_nil]
    constructor
    · rintro ⟨⟩
    · rintro ⟨rfl, hd, rfl⟩
      rw [isAlpha_otherCase, hd] at hcase
      exact absurd rfl hcase

/-- A range between letters is read in both cases if case is ignored. -/
theorem inRanges_range (ignoreCase : Bool) {first last : Char} (h : isRange first last = true)
    (d : Char) :
  inRanges ((first, last) :: if first.isAlpha && ignoreCase then
      [(otherCase first, otherCase last)] else []) d = true
    ↔ IsSomeOf ignoreCase (fun c => first ≤ c ∧ c ≤ last) d
  := by
  rw [isSomeOf_iff, inRanges_cons]
  apply or_congr_right
  simp only [isRange, Bool.and_eq_true, Bool.or_eq_true, decide_eq_true_eq, isDigit_iff,
    isLower_iff, isUpper_iff, le_iff_toNat_le] at h
  cases ignoreCase with
  | false => simp [inRanges_nil]
  | true =>
    rw [Bool.and_true]
    by_cases hfirst : first.isAlpha = true
    · rw [if_pos hfirst, inRanges_cons, inRanges_nil]
      rw [isAlpha_iff] at hfirst
      simp only [le_iff_toNat_le, toNat_otherCase, isAlpha_iff]
      grind
    · rw [if_neg hfirst, inRanges_nil]
      rw [isAlpha_iff] at hfirst
      simp only [le_iff_toNat_le, toNat_otherCase, isAlpha_iff]
      grind

/-- The engine reads in brackets what is meant there. -/
theorem Member.inRanges_ranges (ignoreCase : Bool) (member : Member) (d : Char) :
  inRanges (member.ranges ignoreCase) d = true ↔ IsSomeOf ignoreCase member.Has d
  := by
  cases member with
  | literal c h =>
    rw [ranges, inRanges_letter]
    simp [IsSomeOf, Has]
  | shorthand kind =>
    rw [ranges, kind.inRanges_ranges, isSomeOf_iff]
    constructor
    · exact .inl
    · rintro (h | ⟨-, hd, h⟩)
      · exact h
      · exact Shorthand.has_of_otherCase hd h
  | range first last h => apply inRanges_range ignoreCase h

theorem isLower_eq_of_isRange {first last : Char} (h : isRange first last = true) :
  first.isLower = last.isLower
  := by
  simp only [isRange, Bool.and_eq_true, Bool.or_eq_true, isDigit_iff, isUpper_iff] at h
  rw [Bool.eq_iff_iff, isLower_iff, isLower_iff]
  simp only [isLower_iff] at h
  omega

theorem isAlphanum_of_isAlpha {c : Char} (h : c.isAlpha = true) :
  c.isAlphanum = true
  := isAlphanum_iff.mpr (.inl h)

/-- What stands for the engine in brackets is made of the characters that are meant, letters, digits
and dashes between them. -/
theorem Member.mem_piece {ignoreCase : Bool} {member : Member} {c : Char}
    (h : c ∈ member.piece ignoreCase) :
  c ∉ ['\\', ']', '^']
  := by
  have halphanum {d : Char} (hd : d.isAlphanum = true) : d ∉ ['\\', ']', '^'] :=
    not_mem_of_all hd (by decide)
  have hother {d : Char} (hd : d.isAlpha = true) : otherCase d ∉ ['\\', ']', '^'] :=
    halphanum (isAlphanum_of_isAlpha (isAlpha_otherCase.trans hd))
  cases member with
  | literal d hd =>
    have hliteral : d ∉ ['\\', ']', '^'] := by
      intro hmem
      have hspecial : ['\\', ']', '^'] ⊆ bracketMetacharacters := by decide
      exact hd (hspecial hmem)
    rw [piece] at h
    split at h
    case isTrue halpha =>
      cases ignoreCase with
      | true =>
        obtain rfl | rfl : c = d ∨ c = otherCase d := by simpa [letterPiece] using h
        · exact hliteral
        · exact hother halpha
      | false =>
        obtain rfl : c = d := by simpa [letterPiece] using h
        exact hliteral
    case isFalse =>
      obtain rfl := List.mem_singleton.mp h
      exact hliteral
  | shorthand kind =>
    have hnone : kind.members.all (fun c => c ∉ ['\\', ']', '^']) = true := by
      cases kind <;> decide
    exact of_decide_eq_true (List.all_eq_true.mp hnone c h)
  | range first last hrange =>
    have hends {first last : Char} (hfirst : first.isAlphanum = true)
        (hlast : last.isAlphanum = true) (h : c ∈ [first, '-', last]) : c ∉ ['\\', ']', '^'] := by
      obtain rfl | rfl | rfl : c = first ∨ c = '-' ∨ c = last := by simpa using h
      · exact halphanum hfirst
      · decide
      · exact halphanum hlast
    obtain ⟨hfirst, hlast⟩ := isAlphanum_of_isRange hrange
    rw [piece] at h
    split at h
    case isTrue halpha =>
      rw [rangePiece, List.mem_append] at h
      obtain h | h := h
      · exact hends hfirst hlast h
      · split at h
        · apply hends _ _ h
          · apply isAlphanum_of_isAlpha (isAlpha_otherCase.trans halpha)
          · apply isAlphanum_of_isAlpha
            rw [isAlpha_otherCase, isAlpha_of_isRange hrange, halpha]
        · cases h
    case isFalse => exact hends hfirst hlast h

theorem Member.piece_ne_nil (ignoreCase : Bool) (member : Member) :
  member.piece ignoreCase ≠ []
  := by
  cases member with
  | literal c h =>
    rw [piece]
    split
    · cases ignoreCase <;> simp [letterPiece]
    · simp
  | shorthand kind => cases kind <;> simp [piece, Shorthand.members, digitMembers, wordMembers,
      spaceMembers]
  | range first last h =>
    rw [piece]
    split
    · simp [rangePiece]
    · simp

theorem Member.head?_piece_ne (ignoreCase : Bool) (member : Member) (rest : List Char) :
  (member.piece ignoreCase ++ rest).head? ≠ some '-'
  := by
  have hdash : ('-').isAlphanum = false := by decide
  cases member with
  | literal c h =>
    have hc : c ≠ '-' := by
      rintro rfl
      exact h (by decide)
    rw [piece]
    split
    · cases ignoreCase <;> simpa [letterPiece] using hc
    · simpa using hc
  | shorthand kind => cases kind <;> simp [piece, Shorthand.members, digitMembers, wordMembers,
      spaceMembers]
  | range first last h =>
    have hfirst := (isRange_ne h hdash).1
    rw [piece]
    split
    · simpa [rangePiece] using hfirst
    · simpa using hfirst

/-- A character of brackets that no backslash stands before. -/
def bare (c : Char) : Dialect.Member :=
  (c, false)

theorem head?_map_bare {text : List Char} (h : text.head? ≠ some '-') :
  (text.map bare).head? ≠ some ('-', false)
  := by
  cases text with
  | nil => simp
  | cons c text => simpa [bare] using h

theorem Member.rangesOf_piece (ignoreCase : Bool) (member : Member) {rest : List Char}
    (hrest : rest.head? ≠ some '-') :
  rangesOf ((member.piece ignoreCase ++ rest).map bare)
    = member.ranges ignoreCase ++ rangesOf (rest.map bare)
  := by
  have hone (c : Char) : rangesOf ((c :: rest).map bare) = (c, c) :: rangesOf (rest.map bare) :=
    rangesOf_cons (head?_map_bare hrest)
  cases member with
  | literal c h =>
    cases hc : c.isAlpha with
    | false => simpa [piece, ranges, hc] using hone c
    | true =>
      cases ignoreCase with
      | false => simpa [piece, ranges, hc, letterPiece] using hone c
      | true =>
        have hother : otherCase c ≠ '-' := by
          intro heq
          have halpha := isAlpha_otherCase.trans hc
          rw [heq] at halpha
          exact absurd halpha (by decide)
        have htwo : rangesOf ((c :: otherCase c :: rest).map bare)
            = (c, c) :: rangesOf ((otherCase c :: rest).map bare) := by
          apply rangesOf_cons
          simpa [bare] using hother
        rw [hone] at htwo
        simpa [piece, ranges, hc, letterPiece] using htwo
  | shorthand kind =>
    cases kind with
    | digit => apply rangesOf_range
    | word =>
      change rangesOf (bare 'A' :: ('-', false) :: bare 'Z' :: bare 'a' :: ('-', false) :: bare 'z'
        :: ('_' :: rest).map bare) = _
      rw [rangesOf_range, rangesOf_range, hone]
      rfl
    | space =>
      change rangesOf (bare ' ' :: bare '\n' :: bare '\t' :: ('\r' :: rest).map bare) = _
      rw [rangesOf_cons (by simp [bare]), rangesOf_cons (by simp [bare]),
        rangesOf_cons (by simp [bare]), hone]
      rfl
  | range first last h =>
    have hlower := isLower_eq_of_isRange h
    have hrange (first last : Char) (rest : List Char) :
        rangesOf ((first :: '-' :: last :: rest).map bare)
          = (first, last) :: rangesOf (rest.map bare) := rangesOf_range _ _ _
    cases hfirst : first.isAlpha with
    | false => simpa [piece, ranges, hfirst] using hrange first last rest
    | true =>
      cases ignoreCase with
      | false => simpa [piece, ranges, hfirst, rangePiece] using hrange first last rest
      | true =>
        simp only [piece, ranges, hfirst, rangePiece, hlower, Bool.and_self, decide_true, if_true,
          List.cons_append, List.nil_append, hrange]

theorem rangesOf_members (ignoreCase : Bool) (members : List Member) :
  rangesOf ((members.flatMap (Member.piece ignoreCase)).map bare)
    = members.flatMap (Member.ranges ignoreCase)
  := by
  induction members with
  | nil => rfl
  | cons member members ih =>
    have hbehind : (members.flatMap (Member.piece ignoreCase)).head? ≠ some '-' := by
      cases members with
      | nil => simp
      | cons second members =>
        rw [List.flatMap_cons]
        apply second.head?_piece_ne
    rw [List.flatMap_cons, List.flatMap_cons, member.rangesOf_piece ignoreCase hbehind, ih]

theorem inRanges_members (ignoreCase : Bool) (members : List Member) (d : Char) :
  inRanges (members.flatMap (Member.ranges ignoreCase)) d = true
    ↔ IsSomeOf ignoreCase (fun c => ∃ member ∈ members, member.Has c) d
  := by
  rw [inRanges_flatMap]
  simp only [Member.inRanges_ranges, IsSomeOf]
  constructor
  · rintro ⟨member, hmember, c, hc, hsame⟩
    exact ⟨c, ⟨member, hmember, hc⟩, hsame⟩
  · rintro ⟨c, ⟨member, hmember, hc⟩, hsame⟩
    exact ⟨member, hmember, c, hc, hsame⟩

/-- Brackets are one part, which matches what is meant in them or everything else. -/
theorem isPart_bracketed (ignoreCase negated : Bool) {members : List Member} (h : members ≠ []) :
  IsPart (bracketed negated (members.flatMap (Member.piece ignoreCase)))
    (single fun d =>
      IsSomeOf ignoreCase (fun c => ∃ member ∈ members, member.Has c) d ↔ negated = false)
  := by
  have hmem {c : Char} (hc : c ∈ members.flatMap (Member.piece ignoreCase)) :
      c ∉ ['\\', ']', '^'] := by
    obtain ⟨member, -, hc⟩ := List.mem_flatMap.mp hc
    apply member.mem_piece hc
  use .one { negated, ranges := members.flatMap (Member.ranges ignoreCase) }
  constructor
  · rw [← rangesOf_members]
    apply reads_bracketed
    · intro c hc
      have hne := hmem hc
      simp only [List.mem_cons, not_or] at hne
      exact ⟨hne.1, hne.2.1⟩
    · obtain ⟨first, others, rfl⟩ := List.exists_cons_of_ne_nil h
      rw [List.flatMap_cons]
      apply List.append_ne_nil_of_left_ne_nil (first.piece_ne_nil ignoreCase)
    · intro hhead
      apply hmem (List.mem_of_mem_head? hhead)
      decide
  · apply single_congr
    intro d
    rw [Class.has_iff, inRanges_members]

end Sift.Regex
