import Sift.Proofs.Pattern.Letter
import Sift.Proofs.Pattern.Scan

/-!
# Pieces of what is sent to the engine

`Suits` says that a text may be written at a place and which place is behind it. Each piece that
the conversion writes suits every place of its kind: `suits_escapePiece` and
`suits_bracketEscapePiece` for what stands behind a backslash, `suits_rangePiece` and
`suits_letterPiece` for letters in brackets, `suits_literalPiece` for all other characters.
-/

namespace Sift.Pattern

/-- Whether a text may be written at a place, and what place is behind it. -/
def Suits (t : Scan) (piece : List Char) (t' : Scan) : Prop :=
  t.passes Scan.suits piece = true ∧ t.after piece = t'

namespace Suits

variable {t t' t'' : Scan} {c : Char} {cs : List Char}

theorem nil :
  Suits t [] t
  := ⟨rfl, rfl⟩

theorem append {first second : List Char} (hfirst : Suits t first t')
    (hsecond : Suits t' second t'') :
  Suits t (first ++ second) t''
  := by
  obtain ⟨hpasses, rfl⟩ := hfirst
  obtain ⟨hpasses', rfl⟩ := hsecond
  exact ⟨Scan.passes_append.mpr ⟨hpasses, hpasses'⟩, Scan.after_append t first second⟩

theorem single (hsuits : t.suits c = true) (hnext : t.next c = t') :
  Suits t [c] t'
  := ⟨Scan.passes_cons.mpr ⟨hsuits, rfl⟩, hnext⟩

theorem cons (hc : Suits t [c] t') (h : Suits t' cs t'') :
  Suits t (c :: cs) t''
  := hc.append h

/-! ### Outside brackets -/

theorem outside (h : t.isOutside = true) (hc : t.spot = .group → c ≠ '?')
    (hbacked : t.isBacked c = true) (hanchor : c ∉ anchorSigns) :
  Suits t [c] (Scan.nextOutside t.depth c)
  := by
  apply single _ (Scan.next_of_isOutside h hc)
  rw [Scan.suits_of_isOutside h, hbacked, Bool.true_and, Bool.not_eq_true', Bool.eq_false_iff,
    Ne, List.contains_iff_mem]
  exact hanchor

/-- What needs nothing in front of it may stand anywhere. -/
theorem unbacked (h : t.isOutside = true) (hc : c ∉ backedSigns ++ anchorSigns) :
  Suits t [c] (Scan.nextOutside t.depth c)
  := by
  rw [List.mem_append, not_or] at hc
  apply outside h _ (Scan.isBacked_of_not_mem hc.1) hc.2
  rintro - rfl
  apply hc.1
  decide

/-- What is no sign stands for itself. -/
theorem ordinary (h : t.isOutside = true) (hc : c ∉ outsideSigns) :
  Suits t [c] ⟨.outside, t.depth, true⟩
  := by
  rw [← Scan.nextOutside_of_not_mem hc]
  apply unbacked h
  rw [outsideSigns, List.append_assoc, List.mem_append, not_or] at hc
  exact hc.2

/-- A quantifier stands behind what it repeats. -/
theorem quantifier (hspot : t.spot = .outside) (hrepeatable : t.repeatable = true)
    (hc : c ∈ quantifierSigns) :
  Suits t [c] (Scan.nextOutside t.depth c)
  := by
  have hclose : c ≠ ')' := by
    rintro rfl
    revert hc
    decide
  have hanchor : c ∉ anchorSigns := by
    rw [quantifierSigns] at hc
    simp only [List.mem_cons, List.not_mem_nil, or_false] at hc
    obtain rfl | rfl | rfl | rfl := hc <;> decide
  apply outside _ _ (Scan.isBacked_of_repeatable hrepeatable hclose) hanchor
  · rw [Scan.isOutside, hspot]
    rfl
  · rw [hspot]
    intro h
    cases h

theorem closeGroup (h : t.isOutside = true) (hdepth : 0 < t.depth) :
  Suits t [')'] ⟨.outside, t.depth - 1, true⟩
  := outside h (fun _ => by decide) (Scan.isBacked_of_depth hdepth) (by decide)

theorem escape (h : t.isOutside = true) (hc : Text.isAlphanumeric c = false) :
  Suits t ['\\', c] ⟨.outside, t.depth, true⟩
  := by
  apply cons (unbacked h (by decide))
  apply single _ rfl
  exact congrArg Bool.not hc

theorem anyRun (h : t.isOutside = true) :
  Suits t anyRun ⟨.outside, t.depth, true⟩
  := by
  apply cons (ordinary h (by decide))
  apply quantifier rfl rfl (by decide)

/-! ### In brackets -/

/-- What is no sign is a member. -/
theorem member (h : t.spot.isInside = true) (hc : c ∉ insideSigns) :
  Suits t [c] ⟨.brackets, t.depth, true⟩
  := by
  simp only [insideSigns, List.mem_cons, List.not_mem_nil, or_false, not_or] at hc
  obtain ⟨hbackslash, hclose, hnegation⟩ := hc
  apply single (Scan.suits_of_isInside h hclose)
  rw [Scan.next_of_isInside h hnegation, Scan.nextInside, if_neg hclose, if_neg hbackslash]

theorem members (h : t.spot.isInside = true) (hne : cs ≠ []) (hcs : ∀ c ∈ cs, c ∉ insideSigns) :
  Suits t cs ⟨.brackets, t.depth, true⟩
  := by
  induction cs generalizing t with
  | nil => cases hne rfl
  | cons c rest ih =>
    have hc := member h (hcs c (by simp))
    by_cases hrest : rest = []
    case pos =>
      rw [hrest]
      exact hc
    case neg =>
      apply hc.cons
      apply ih rfl hrest
      intro d hd
      apply hcs d (by simp [hd])

theorem bracketEscape (h : t.spot.isInside = true) (hc : Text.isAlphanumeric c = false) :
  Suits t ['\\', c] ⟨.brackets, t.depth, true⟩
  := by
  have hnext : t.next '\\' = ⟨.bracketEscape, t.depth, true⟩ := by
    rw [Scan.next_of_isInside h (by decide)]
    rfl
  apply cons (single (Scan.suits_of_isInside h (by decide)) hnext)
  apply single _ rfl
  exact congrArg Bool.not hc

/-- Members in brackets, of which there is one, are a class. -/
theorem bracketed {negated : Bool} (h : t.isOutside = true) (hne : cs ≠ [])
    (hcs : ∀ c ∈ cs, c ∉ insideSigns) :
  Suits t (bracketed negated cs) ⟨.outside, t.depth, true⟩
  := by
  have hclose {t' : Scan} (h : t'.spot.isInside = true) :
      Suits t' (cs ++ [']']) ⟨.outside, t'.depth, true⟩ :=
    (members h hne hcs).append (single rfl rfl)
  apply cons (unbacked h (by decide))
  cases negated with
  | false => exact hclose rfl
  | true =>
    have hnegation : Suits ⟨.bracketStart, t.depth, true⟩ ['^'] ⟨.bracketFirst, t.depth, true⟩ :=
      single rfl rfl
    exact hnegation.cons (hclose rfl)

end Suits

/-! ### Pieces for one character -/

section

variable {c : Char} {piece : List Char} {t : Scan}

theorem isAlphanumeric_eq_isAlphanum (h : c.toNat < 128) :
  Text.isAlphanumeric c = c.isAlphanum
  := if_pos h

/-- The members of the classes that escapes stand for are no signs in brackets. -/
theorem not_mem_insideSigns_of_mem (h : c ∈ spaceMembers ++ digitMembers ++ wordMembers) :
  c ∉ insideSigns
  := by
  have hsigns : insideSigns.all
      (fun d => !(spaceMembers ++ digitMembers ++ wordMembers).contains d) = true := by
    decide
  exact not_mem_of_all (List.contains_iff_mem.mpr h) hsigns

/-- A letter behind a backslash is a class or a blank, and anything but a letter or a digit is
escaped for the engine as well. -/
theorem suits_escapePiece (h : escapePiece c = .ok piece) (hc : c.toNat < 128)
    (ht : t.isOutside = true) :
  Suits t piece ⟨.outside, t.depth, true⟩
  := by
  revert h
  fun_cases escapePiece c <;> intro h <;> cases h
  case case1 | case2 | case3 | case4 | case5 | case6 =>
    apply Suits.bracketed ht
    · decide
    · intro d hd
      apply not_mem_insideSigns_of_mem
      simp [hd]
  case case7 | case8 | case9 | case10 => apply Suits.ordinary ht (by decide)
  case case14 halphanum =>
    apply Suits.escape ht
    rw [isAlphanumeric_eq_isAlphanum hc]
    exact Bool.eq_false_iff.mpr halphanum

theorem suits_bracketEscapePiece (h : bracketEscapePiece c = .ok piece) (hc : c.toNat < 128)
    (ht : t.spot.isInside = true) :
  Suits t piece ⟨.brackets, t.depth, true⟩
  := by
  revert h
  fun_cases bracketEscapePiece c <;> intro h <;> cases h
  case case1 | case2 | case3 =>
    apply Suits.members ht
    · decide
    · intro d hd
      apply not_mem_insideSigns_of_mem
      simp [hd]
  case case5 | case6 | case7 | case8 => apply Suits.member ht (by decide)
  case case10 halphanum =>
    apply Suits.bracketEscape ht
    rw [isAlphanumeric_eq_isAlphanum hc]
    exact Bool.eq_false_iff.mpr halphanum

variable {ignoreCase : Bool}

theorem not_mem_insideSigns (h : c.isAlpha = true) :
  c ∉ insideSigns ∧ otherCase c ∉ insideSigns
  := by
  have hsigns : insideSigns.all (fun d => !d.isAlpha) = true := by decide
  constructor
  · exact not_mem_of_all h hsigns
  · exact not_mem_of_all (isAlpha_otherCase.trans h) hsigns

theorem suits_rangePiece {first last : Char} (hfirst : first.isAlpha = true)
    (hlast : last.isAlpha = true) (ht : t.spot.isInside = true) :
  Suits t (rangePiece ignoreCase first last) ⟨.brackets, t.depth, true⟩
  := by
  have hmembers : ∀ c ∈ [first, '-', last] ++ [otherCase first, '-', otherCase last],
      c ∉ insideSigns := by
    obtain ⟨hfirst, hfirst'⟩ := not_mem_insideSigns hfirst
    obtain ⟨hlast, hlast'⟩ := not_mem_insideSigns hlast
    have hdash : '-' ∉ insideSigns := by decide
    simp [hfirst, hfirst', hlast, hlast', hdash]
  apply Suits.members ht
  · simp [rangePiece]
  · intro c hc
    apply hmembers c
    rw [rangePiece] at hc
    split at hc
    case isTrue => exact hc
    case isFalse => exact List.mem_append_left _ hc

theorem suits_letterPiece (hc : c.isAlpha = true) (ht : t.spot.isInside = true) :
  Suits t (letterPiece ignoreCase c) ⟨.brackets, t.depth, true⟩
  := by
  obtain ⟨hc, hother⟩ := not_mem_insideSigns hc
  cases ignoreCase with
  | false => exact Suits.member ht hc
  | true =>
    apply Suits.members ht (List.cons_ne_nil _ _)
    simp [hc, hother]

/-- A literal is itself, a class of two letters, or an operator of the engine behind a
backslash. -/
theorem suits_literalPiece (ht : t.isOutside = true) (hc : c ∉ outsideSigns) :
  Suits t (literalPiece ignoreCase c) ⟨.outside, t.depth, true⟩
  := by
  rw [literalPiece]
  split
  case isTrue halpha =>
    cases ignoreCase with
    | false => exact Suits.ordinary ht hc
    | true =>
      obtain ⟨hc, hother⟩ := not_mem_insideSigns halpha
      have hclass : Suits t (bracketed false [c, otherCase c]) _ :=
        Suits.bracketed ht (List.cons_ne_nil _ _) (by simp [hc, hother])
      exact hclass
  case isFalse =>
    split
    case isTrue hreserved =>
      have hoperators : reserved.all (fun d => !Text.isAlphanumeric d) = true := by decide
      have hc := List.all_eq_true.mp hoperators c (List.contains_iff_mem.mp hreserved)
      rw [Bool.not_eq_true'] at hc
      exact Suits.escape ht hc
    case isFalse => exact Suits.ordinary ht hc

end

end Sift.Pattern
