import Mathlib.Data.List.TakeDrop
import Mathlib.Data.List.TakeWhile
import Sift.Pattern.Syntax
import Sift.Proofs.Computation
import Sift.Proofs.Pattern.Scan

/-!
# What the check of syntax guarantees

A text that the check of syntax accepts is readable: groups are closed that are open, quantifiers
stand behind what they repeat, and no group or bracket expression is open at the end. That is only
shown of plain texts, in which a bracket expression ends at its first closing bracket.
`finishes_of_checkSyntax` is the result.
-/

namespace Sift.Pattern

namespace Scan

/-- Whether a text that goes on from a place is readable up to its end, where nothing is open,
unless it is not plain. -/
def Finishes (s : Scan) (cs : List Char) : Prop :=
  s.passes isPlain cs = true →
    s.passes isReadable cs = true ∧ (s.after cs).isOutside = true ∧ (s.after cs).depth = 0

/-- The same from any place in brackets. -/
def FinishesInside (depth : Nat) (cs : List Char) : Prop :=
  ∀ s : Scan, s.spot.isInside = true → s.depth = depth → s.Finishes cs

variable {s : Scan} {c : Char} {depth : Nat} {rest : List Char}

theorem Finishes.cons (hc : s.isReadable c = true) (h : (s.next c).Finishes rest) :
  s.Finishes (c :: rest)
  := by
  intro hplain
  rw [passes_cons] at hplain
  obtain ⟨hreadable, hend⟩ := h hplain.2
  exact ⟨passes_cons.mpr ⟨hc, hreadable⟩, hend⟩

/-- Nothing is said of a text that is not plain. -/
theorem Finishes.of_not_isPlain (hc : s.isPlain c = false) :
  s.Finishes (c :: rest)
  := by
  intro hplain
  rw [passes_cons, hc] at hplain
  cases hplain.1

/-- Outside brackets the next place depends on the number of open groups only. -/
theorem Finishes.outside (hs : s.isOutside = true) (hc : s.spot = .group → c ≠ '?')
    (hbacked : s.isBacked c = true) (hrest : Finishes (nextOutside s.depth c) rest) :
  s.Finishes (c :: rest)
  := by
  apply Finishes.cons
  · rw [isReadable_of_isOutside hs hc, hbacked]
  · rw [next_of_isOutside hs hc]
    exact hrest

/-! ### Brackets -/

namespace FinishesInside

theorem cons (hclose : c ≠ ']') (hbackslash : c ≠ '\\') (h : FinishesInside depth rest) :
  FinishesInside depth (c :: rest)
  := by
  intro s hs hdepth
  apply Finishes.cons (isReadable_of_isInside hs)
  obtain ⟨hnext, hkept⟩ := isInside_next hs hclose hbackslash
  apply h (s.next c) hnext
  rw [hkept, hdepth]

theorem escape (hc : c.toNat < 128) (h : FinishesInside depth rest) :
  FinishesInside depth ('\\' :: c :: rest)
  := by
  intro s hs hdepth
  apply Finishes.cons (isReadable_of_isInside hs)
  have hnext : s.next '\\' = ⟨.bracketEscape, depth, true⟩ := by
    rw [next_of_isInside hs (by decide), hdepth]
    rfl
  rw [hnext]
  apply Finishes.cons
  · exact decide_eq_true hc
  · apply h _ rfl rfl

/-- A closing bracket right behind the opening one is not plain. -/
theorem close (h : Finishes ⟨.outside, depth, true⟩ rest) :
  FinishesInside depth (']' :: rest)
  := by
  intro s hs hdepth
  obtain ⟨spot, depth', repeatable⟩ := s
  cases hdepth
  cases spot with
  | bracketStart | bracketFirst => exact Finishes.of_not_isPlain rfl
  | brackets => exact Finishes.cons rfl h
  | _ => cases hs

theorem openBracket :
  FinishesInside depth ('[' :: rest)
  := by
  intro s hs _
  apply Finishes.of_not_isPlain
  obtain ⟨spot, depth', repeatable⟩ := s
  cases spot with
  | bracketStart | bracketFirst | brackets => rfl
  | _ => cases hs

end FinishesInside

end Scan

open Scan

/-! ### Escapes and classes -/

section

variable {cs rest : List Char} {depth : Nat}

theorem readEscape_inv {found : Escape} (h : readEscape cs = .ok (found, rest)) :
  ∃ c, cs = c :: rest ∧ c.toNat < 128
  := by
  revert h
  fun_cases readEscape cs <;> intro h <;> cases h
  case case2 c ranges hclass =>
    refine ⟨c, rfl, ?_⟩
    unfold namedClass? at hclass
    split_ifs at hclass <;> subst c <;> decide
  case case8 c _ _ _ _ _ _ hc => exact ⟨c, rfl, hc.1⟩
  all_goals exact ⟨_, rfl, by decide⟩

theorem readMember_inside {found : Escape} (h : readMember cs = .ok (found, rest))
    (hclose : cs.head? ≠ some ']') (hrest : FinishesInside depth rest) :
  FinishesInside depth cs
  := by
  cases cs with
  | nil => cases h
  | cons c behind =>
    rw [readMember] at h
    split at h
    case isTrue hbackslash =>
      obtain ⟨d, rfl, hd⟩ := readEscape_inv h
      rw [hbackslash]
      exact .escape hd hrest
    case isFalse hbackslash =>
      cases h
      apply FinishesInside.cons _ hbackslash hrest
      rintro rfl
      exact hclose rfl

theorem readRange_inside {ranges : Text.Ranges} (h : readRange cs = .ok (ranges, rest))
    (hclose : cs.head? ≠ some ']') (hrest : FinishesInside depth rest) :
  FinishesInside depth cs
  := by
  rw [readRange, bind_eq_ok_iff] at h
  obtain ⟨⟨first, behind⟩, hfirst, h⟩ := h
  apply readMember_inside hfirst hclose
  dsimp only at h
  split at h
  case h_1 => cases h
  case h_2 last =>
    split at h
    case isTrue =>
      obtain ⟨_, _, h⟩ := bind_eq_ok_iff.mp h
      cases h
      exact hrest
    case isFalse hlast =>
      rw [not_or] at hlast
      obtain ⟨⟨_, behind⟩, hmember, h⟩ := bind_eq_ok_iff.mp h
      obtain ⟨_, _, h⟩ := bind_eq_ok_iff.mp h
      obtain ⟨_, _, h⟩ := bind_eq_ok_iff.mp h
      split at h <;> cases h
      apply FinishesInside.cons (by decide) (by decide)
      apply readMember_inside hmember hlast.1 hrest
  case h_3 =>
    obtain ⟨_, _, h⟩ := bind_eq_ok_iff.mp h
    cases h
    exact hrest

theorem readClass_inside {fuel : Nat} {left : Option LeftSide} {members : Members}
    {found : Nested Text.Ranges} (h : readClass fuel left members cs = .ok (found, rest))
    (hrest : Finishes ⟨.outside, depth, true⟩ rest) :
  FinishesInside depth cs
  := by
  have hpair {c : Char} {behind : List Char} (hc : c ∉ [']', '\\'])
      (h : FinishesInside depth behind) : FinishesInside depth (c :: c :: behind) := by
    simp only [List.mem_cons, List.not_mem_nil, or_false, not_or] at hc
    exact .cons hc.1 hc.2 (.cons hc.1 hc.2 h)
  induction fuel generalizing left members cs with
  | zero => cases h
  | succ fuel ih =>
    rw [readClass.eq_def] at h
    dsimp only at h
    split at h
    case h_1 => cases h
    case h_2 => exact .openBracket
    case h_3 =>
      cases h
      exact .close hrest
    case h_4 | h_5 | h_6 =>
      apply hpair (by decide) (ih h)
    case h_7 _ hclose _ _ _ =>
      rw [bind_eq_ok_iff] at h
      obtain ⟨⟨ranges, behind⟩, hrange, h⟩ := h
      apply readRange_inside hrange _ (ih h)
      rw [Ne, List.head?_eq_some_iff]
      rintro ⟨behind, rfl⟩
      exact hclose behind rfl

theorem dropWhile_dashes_inside (h : FinishesInside depth (cs.dropWhile (· = '-'))) :
  FinishesInside depth cs
  := by
  induction cs with
  | nil => exact h
  | cons c behind ih =>
    by_cases hc : c = '-'
    case pos =>
      rw [hc] at h ⊢
      exact .cons (by decide) (by decide) (ih h)
    case neg =>
      rw [List.dropWhile_cons_of_neg (by simpa using hc)] at h
      exact h

theorem head?_of_leadingDashes (h : leadingDashes cs = ([], ']' :: rest)) :
  cs.head? = some ']'
  := by
  obtain ⟨hdashes, hbehind⟩ := Prod.mk.inj h
  have hcs := List.takeWhile_append_dropWhile (p := (decide <| · = '-')) (l := cs)
  rw [List.map_eq_nil_iff.mp hdashes, hbehind] at hcs
  rw [← hcs]
  rfl

/-- A class begins with dashes, or with a closing bracket that stands for itself. -/
theorem classStart_inv {negated : Bool} {members : Members}
    (h : classStart cs = (negated, members, rest)) :
  ∃ behind, cs = (if negated then ['^'] else []) ++ behind
    ∧ (behind.head? = some ']' ∨ rest = behind.dropWhile (· = '-'))
  := by
  have hnegated : negated = decide (cs.head? = some '^') := by
    unfold classStart at h
    dsimp only at h
    split at h <;> cases h <;> rfl
  refine ⟨if cs.head? = some '^' then cs.drop 1 else cs, ?_, ?_⟩
  · rw [hnegated]
    by_cases hhead : cs.head? = some '^'
    case pos =>
      obtain ⟨behind, rfl⟩ := List.head?_eq_some_iff.mp hhead
      rfl
    case neg => simp [hhead]
  · unfold classStart at h
    dsimp only at h
    split at h
    case h_1 hdashes => exact Or.inl (head?_of_leadingDashes hdashes)
    case h_2 =>
      cases h
      exact Or.inr rfl

/-- Right behind an opening bracket a closing one is not plain. -/
theorem classStart_finishes {negated : Bool} {members : Members}
    (h : classStart cs = (negated, members, rest)) (hrest : FinishesInside depth rest) :
  Finishes ⟨.bracketStart, depth, true⟩ cs
  := by
  obtain ⟨behind, rfl, hbehind⟩ := classStart_inv h
  have hfirst (s : Scan) (hs : s = ⟨.bracketStart, depth, true⟩ ∨
      s = ⟨.bracketFirst, depth, true⟩) : s.Finishes behind := by
    obtain hclose | rfl := hbehind
    case inl =>
      obtain ⟨behind, rfl⟩ := List.head?_eq_some_iff.mp hclose
      obtain rfl | rfl := hs <;> exact Finishes.of_not_isPlain rfl
    case inr =>
      obtain rfl | rfl := hs <;> exact dropWhile_dashes_inside hrest _ rfl rfl
  cases negated with
  | false => exact hfirst _ (Or.inl rfl)
  | true => exact Finishes.cons rfl (hfirst _ (Or.inr rfl))

theorem readBrackets_finishes {found : Nested Form} (h : readBrackets cs = .ok (found, rest))
    (hrest : Finishes ⟨.outside, depth, true⟩ rest) :
  Finishes ⟨.bracketStart, depth, true⟩ cs
  := by
  rw [readBrackets] at h
  obtain ⟨⟨_, behind⟩, hclass, h⟩ := bind_eq_ok_iff.mp h
  cases h
  apply classStart_finishes rfl (readClass_inside hclass hrest)

/-! ### Groups and counts -/

theorem readName_finishes {first : Bool} {name : List Char}
    (h : readName first cs = .ok (name, rest)) (hrest : Finishes ⟨.outside, depth, false⟩ rest)
    (repeatable : Bool) :
  Finishes ⟨.name, depth, repeatable⟩ cs
  := by
  induction cs generalizing first name repeatable with
  | nil => cases h
  | cons c behind ih =>
    rw [readName] at h
    apply Finishes.cons rfl
    by_cases hc : c = '>'
    case pos =>
      rw [if_pos hc] at h
      cases h
      rw [hc]
      exact hrest
    case neg =>
      rw [if_neg hc] at h
      split at h
      case isTrue =>
        obtain ⟨⟨_, _⟩, hname, h⟩ := bind_eq_ok_iff.mp h
        cases h
        have hnext : Scan.next ⟨.name, depth, repeatable⟩ c = ⟨.name, depth, false⟩ := by
          simp [Scan.next, hc]
        rw [hnext]
        apply ih hname
      case isFalse => cases h

theorem groupStart_finishes {groups : Groups} {opened : Option Groups}
    (h : groupStart groups cs = .ok (opened, rest))
    (hrest : ∀ spot : Spot, spot.isOutside = true → (spot = .group → rest.head? ≠ some '?') →
      Finishes ⟨spot, depth, false⟩ rest) :
  Finishes ⟨.group, depth, false⟩ cs
  := by
  have houtside : Finishes ⟨.outside, depth, false⟩ rest := hrest .outside rfl (by simp)
  revert h
  fun_cases groupStart groups cs <;> intro h
  case case1 =>
    cases h
    exact Finishes.cons rfl (Finishes.cons rfl houtside)
  case case2 => cases h
  case case3 =>
    obtain ⟨⟨name, behind⟩, hname, h⟩ := bind_eq_ok_iff.mp h
    dsimp only at h
    split_ifs at h
    cases h
    exact Finishes.cons rfl (Finishes.cons rfl (readName_finishes hname houtside false))
  case case4 => cases h
  case case5 _ _ hquestion =>
    cases h
    apply hrest .group rfl
    rintro - hhead
    obtain ⟨behind, rfl⟩ := List.head?_eq_some_iff.mp hhead
    apply hquestion behind rfl

theorem exists_digits (cs : List Char) :
  ∃ digits, cs = digits ++ cs.dropWhile Char.isDigit ∧ '\x7d' ∉ digits
  := by
  refine ⟨cs.takeWhile Char.isDigit, List.takeWhile_append_dropWhile.symm, ?_⟩
  intro hmem
  cases List.mem_takeWhile_imp hmem

theorem readDecimal_inv {found : Option Nat} (h : readDecimal cs = .ok (found, rest)) :
  rest = cs.dropWhile Char.isDigit
  := by
  rw [readDecimal, List.span_eq_takeWhile_dropWhile] at h
  split at h
  case h_1 hspan =>
    cases h
    exact (Prod.mk.inj hspan).2.symm
  case h_2 hspan =>
    dsimp only at h
    split at h <;> cases h
    exact (Prod.mk.inj hspan).2.symm

/-- Counts end at the first closing brace. -/
theorem readCounts_inv {counts : Nat × Option Nat} (h : readCounts cs = .ok (counts, rest)) :
  ∃ text, cs = text ++ '\x7d' :: rest ∧ '\x7d' ∉ text
  := by
  obtain ⟨digits, hcs, hnone⟩ := exists_digits cs
  rw [readCounts] at h
  split at h
  case isTrue => cases h
  dsimp only at h
  split at h
  case h_1 => cases h
  case h_2 => cases h
  case h_3 behind hbehind =>
    obtain ⟨_, _, h⟩ := bind_eq_ok_iff.mp h
    cases h
    use digits ++ [',']
    rw [hbehind] at hcs
    constructor
    · simpa using hcs
    · simp [hnone]
  case h_4 behind _ _ hbehind =>
    obtain ⟨_, _, h⟩ := bind_eq_ok_iff.mp h
    obtain ⟨⟨_, found⟩, hfound, h⟩ := bind_eq_ok_iff.mp h
    obtain ⟨_, _, h⟩ := bind_eq_ok_iff.mp h
    obtain ⟨digits', hcs', hnone'⟩ := exists_digits behind
    have hclosed : found = '\x7d' :: rest := by
      simp only [pure_bind] at h
      split at h <;> cases h
      rfl
    rw [hbehind, hcs', ← readDecimal_inv hfound, hclosed] at hcs
    use digits ++ ',' :: digits'
    constructor
    · simpa using hcs
    · simp [hnone, hnone']
  case h_5 =>
    obtain ⟨_, _, h⟩ := bind_eq_ok_iff.mp h
    have hclosed : cs.dropWhile Char.isDigit = '\x7d' :: rest := by
      simp only [pure_bind] at h
      split at h <;> cases h
      assumption
    rw [hclosed] at hcs
    exact ⟨digits, hcs, hnone⟩

theorem counts_finishes {text : List Char} (htext : '\x7d' ∉ text)
    (hrest : Finishes ⟨.outside, depth, true⟩ rest) :
  Finishes ⟨.counts, depth, true⟩ (text ++ '\x7d' :: rest)
  := by
  induction text with
  | nil => exact Finishes.cons rfl hrest
  | cons c text ih =>
    simp only [List.mem_cons, not_or] at htext
    apply Finishes.cons rfl
    have hnext : Scan.next ⟨.counts, depth, true⟩ c = ⟨.counts, depth, true⟩ := by
      simp [Scan.next, Ne.symm htext.1]
    rw [hnext]
    exact ih htext.2

/-! ### Expressions -/

theorem readLazy_finishes (hrest : Finishes ⟨.outside, depth, true⟩ (readLazy cs).2) :
  Finishes ⟨.outside, depth, true⟩ cs
  := by
  unfold readLazy at hrest
  split at hrest
  · exact Finishes.cons rfl hrest
  · exact hrest

theorem readPrimitive_finishes {s : Scan} {c : Char} {form : Form} (hs : s.isOutside = true)
    (h : readPrimitive c cs = .ok (form, rest)) (hc : c ∉ ['[', '(', '|'] ++ backedSigns)
    (hrest : Finishes ⟨.outside, s.depth, true⟩ rest) :
  s.Finishes (c :: cs)
  := by
  rw [List.mem_append, not_or] at hc
  have hquestion : c ≠ '?' := by
    rintro rfl
    apply hc.2
    decide
  apply Finishes.outside hs (fun _ => hquestion) (isBacked_of_not_mem hc.2)
  rw [readPrimitive] at h
  by_cases hbackslash : c = '\\'
  case pos =>
    rw [if_pos hbackslash] at h
    obtain ⟨⟨escape, behind⟩, hescape, h⟩ := bind_eq_ok_iff.mp h
    have hbehind : behind = rest := by
      cases escape <;> cases h <;> rfl
    rw [hbehind] at hescape
    obtain ⟨d, rfl, hd⟩ := readEscape_inv hescape
    rw [hbackslash]
    apply Finishes.cons
    · exact decide_eq_true hd
    · exact hrest
  case neg =>
    have hbehind : cs = rest := by
      rw [if_neg hbackslash] at h
      split_ifs at h <;> cases h <;> rfl
    have hnext : nextOutside s.depth c = ⟨.outside, s.depth, true⟩ := by
      simp only [backedSigns, quantifierSigns, List.mem_cons, not_or] at hc
      simp [nextOutside, hc, hbackslash]
    rw [hnext, hbehind]
    exact hrest

theorem ne_nil_of_repeatLast {low : Nat} {high : Option Nat} {isLazy : Bool}
    {parts parts' : List (Nested Form)} (h : repeatLast low high isLazy parts = .ok parts') :
  parts ≠ []
  := by
  rintro rfl
  cases h

/-- Whether what follows a group or an expression finishes. A group was opened at a place with fewer
open groups, an expression at one with none. -/
def Closing (inGroup : Bool) (depth : Nat) (rest : List Char) : Prop :=
  if inGroup then ∃ outer, depth = outer + 1 ∧ Finishes ⟨.outside, outer, true⟩ rest
  else depth = 0

/-- The induction is on the fuel. It says of the place that there is something to repeat if parts of
the alternative have been read. -/
theorem readAlternatives_finishes {fuel : Nat} {inGroup : Bool} {groups groups' : Groups}
    {parts done : List (Nested Form)} {found : Nested Form} {s : Scan}
    (h : readAlternatives fuel inGroup groups parts done cs = .ok (found, groups', rest))
    (hs : s.isOutside = true) (hquestion : s.spot = .group → cs.head? ≠ some '?')
    (hparts : parts ≠ [] → s.repeatable = true) (hclosing : Closing inGroup s.depth rest) :
  s.Finishes cs
  := by
  induction fuel generalizing inGroup groups groups' parts done found s cs rest with
  | zero => cases h
  | succ fuel ih =>
    have hbehind {parts : List (Nested Form)} {groups : Groups} {cs : List Char}
        (h : readAlternatives fuel inGroup groups parts done cs = .ok (found, groups', rest)) :
        Finishes ⟨.outside, s.depth, true⟩ cs :=
      ih h rfl (by simp) (fun _ => rfl) hclosing
    cases cs with
    | nil =>
      rw [readAlternatives] at h
      split_ifs at h with hgroup
      cases h
      rw [Closing, if_neg hgroup] at hclosing
      intro _
      exact ⟨rfl, hs, hclosing⟩
    | cons c cs =>
      have hc : s.spot = .group → c ≠ '?' := by
        rintro hspot rfl
        apply hquestion hspot rfl
      rw [readAlternatives] at h
      split_ifs at h with hopen hclose hgroup hbar hbracket hsign hbrace hempty
      case pos =>
        -- A group, behind which the outer one goes on.
        obtain ⟨⟨opened, behind⟩, hstart, h⟩ := bind_eq_ok_iff.mp h
        obtain ⟨⟨inner, groups, outer⟩, hinner, h⟩ := bind_eq_ok_iff.mp h
        subst hopen
        apply Finishes.outside hs hc (isBacked_of_not_mem (by decide))
        apply groupStart_finishes hstart
        intro spot hspot hhead
        apply ih (s := ⟨spot, s.depth + 1, false⟩) hinner hspot hhead (fun h => absurd rfl h)
        exact ⟨s.depth, rfl, hbehind h⟩
      case pos =>
        -- The end of the group.
        cases h
        rw [Closing, if_pos hgroup] at hclosing
        obtain ⟨outer, hdepth, hrest⟩ := hclosing
        have hsome : 0 < s.depth := by
          rw [hdepth]
          exact Nat.succ_pos outer
        subst hclose
        apply Finishes.outside hs hc (isBacked_of_depth hsome)
        rw [hdepth]
        exact hrest
      case pos =>
        -- The next alternative, which has nothing to repeat yet.
        subst hbar
        apply Finishes.outside hs hc (isBacked_of_not_mem (by decide))
        exact ih (s := ⟨.outside, s.depth, false⟩) h rfl (by simp) (fun h => absurd rfl h) hclosing
      case pos =>
        obtain ⟨⟨part, behind⟩, hpart, h⟩ := bind_eq_ok_iff.mp h
        subst hbracket
        apply Finishes.outside hs hc (isBacked_of_not_mem (by decide))
        apply readBrackets_finishes hpart (hbehind h)
      case pos =>
        obtain ⟨parts', hparts', h⟩ := bind_eq_ok_iff.mp h
        have hfront := hparts (ne_nil_of_repeatLast hparts')
        have hnext : nextOutside s.depth c = ⟨.outside, s.depth, true⟩ := by
          obtain rfl | rfl | rfl := hsign <;> rfl
        apply Finishes.outside hs hc (isBacked_of_repeatable hfront hclose)
        rw [hnext]
        exact readLazy_finishes (hbehind h)
      case neg =>
        obtain ⟨⟨⟨low, high⟩, behind⟩, hcounts, h⟩ := bind_eq_ok_iff.mp h
        dsimp only at h
        split_ifs at h
        obtain ⟨parts', hparts', h⟩ := bind_eq_ok_iff.mp h
        have hfront := hparts (ne_nil_of_repeatLast hparts')
        have hlazy := readLazy_finishes (hbehind h)
        obtain ⟨text, rfl, htext⟩ := readCounts_inv hcounts
        subst hbrace
        apply Finishes.outside hs hc (isBacked_of_repeatable hfront hclose)
        exact counts_finishes htext hlazy
      case neg =>
        obtain ⟨⟨part, behind⟩, hpart, h⟩ := bind_eq_ok_iff.mp h
        simp only [not_or] at hsign
        apply readPrimitive_finishes hs hpart _ (hbehind h)
        simp [backedSigns, quantifierSigns, hopen, hclose, hbar, hbracket, hsign, hbrace]

/-- A text that the check of syntax accepts is readable up to its end. -/
theorem finishes_of_checkSyntax (h : checkSyntax cs = .ok ()) :
  Finishes {} cs
  := by
  obtain ⟨⟨whole, groups, rest⟩, hwhole, -⟩ := bind_eq_ok_iff.mp h
  exact readAlternatives_finishes hwhole rfl (by simp) (fun h => absurd rfl h) rfl

/-! ### Escaped slashes -/

/-- Where no backslash stands in front, a slash may stand for itself as well. -/
theorem next_slash {s : Scan} (hs : s.spot.isEscaped = false) :
  (s.next '\\').next '/' = s.next '/'
  := by
  obtain ⟨spot, depth, repeatable⟩ := s
  cases spot with
  | escape | bracketEscape => cases hs
  | _ => rfl

theorem isReadable_slash {s : Scan} (hs : s.spot.isEscaped = false) :
  s.isReadable '/' = (s.isReadable '\\' && (s.next '\\').isReadable '/')
  := by
  obtain ⟨spot, depth, repeatable⟩ := s
  cases spot with
  | escape | bracketEscape => cases hs
  | _ => rfl

theorem isPlain_slash {s : Scan} (hs : s.spot.isEscaped = false) :
  s.isPlain '/' = (s.isPlain '\\' && (s.next '\\').isPlain '/')
  := by
  obtain ⟨spot, depth, repeatable⟩ := s
  cases spot with
  | escape | bracketEscape => cases hs
  | _ => rfl

/-- Only a backslash escapes what is behind it. -/
theorem isEscaped_next {s : Scan} {c : Char} (hs : s.spot.isEscaped = false) (hc : c ≠ '\\') :
  (s.next c).spot.isEscaped = false
  := by
  obtain ⟨spot, depth, repeatable⟩ := s
  cases spot with
  | escape | bracketEscape => cases hs
  | _ =>
    simp only [next, nextOutside, nextInside, if_neg hc]
    split_ifs <;> rfl

/-- What is escaped escapes nothing, and in names and counts a backslash stands for itself. -/
theorem isEscaped_next_next {s : Scan} (c : Char) (hs : s.spot.isEscaped = false) :
  ((s.next '\\').next c).spot.isEscaped = false
  := by
  have hname (depth : Nat) : (next ⟨.name, depth, false⟩ c).spot.isEscaped = false := by
    simp only [next]
    split_ifs <;> rfl
  have hcounts (depth : Nat) : (next ⟨.counts, depth, true⟩ c).spot.isEscaped = false := by
    simp only [next]
    split_ifs <;> rfl
  obtain ⟨spot, depth, repeatable⟩ := s
  cases spot with
  | escape | bracketEscape => cases hs
  | groupKind | name => exact hname depth
  | counts => exact hcounts depth
  | _ => rfl

/-- The places behind a text do not depend on whether its slashes are escaped, and neither does a
condition that sees no difference at one slash. -/
theorem scan_bareSlashes {check : Scan → Char → Bool} {s : Scan} (cs : List Char)
    (hs : s.spot.isEscaped = false)
    (hcheck : ∀ s : Scan, s.spot.isEscaped = false →
      check s '/' = (check s '\\' && check (s.next '\\') '/')) :
  s.passes check (bareSlashes cs) = s.passes check cs ∧ s.after (bareSlashes cs) = s.after cs
  := by
  fun_induction bareSlashes cs generalizing s with
  | case1 rest ih =>
    obtain ⟨hpasses, hafter⟩ := ih (isEscaped_next hs (by decide : '/' ≠ '\\'))
    simp only [passes, after_cons, next_slash hs, hcheck s hs, hpasses, hafter, Bool.and_assoc,
      and_self]
  | case2 c rest hc ih =>
    obtain ⟨hpasses, hafter⟩ := ih (isEscaped_next_next c hs)
    simp only [passes, after_cons, hpasses, hafter, and_self]
  | case3 c rest hslash hbackslash ih =>
    by_cases hc : c = '\\'
    case pos =>
      cases rest with
      | nil => exact ⟨rfl, rfl⟩
      | cons d rest => exact (hbackslash d rest hc rfl).elim
    case neg =>
      obtain ⟨hpasses, hafter⟩ := ih (isEscaped_next hs hc)
      simp only [passes, after_cons, hpasses, hafter, and_self]
  | case4 => exact ⟨rfl, rfl⟩

/-- A pattern that passes the check of syntax is readable up to its end. -/
theorem finishes_of_check (h : check cs = .ok ()) :
  Finishes {} cs
  := by
  have hbare : Finishes {} (bareSlashes cs) := by
    apply finishes_of_checkSyntax
    rw [check] at h
    cases hfound : checkSyntax (bareSlashes cs) with
    | error fault =>
      rw [hfound] at h
      cases h
    | ok => rfl
  have hstart : ({} : Scan).spot.isEscaped = false := rfl
  obtain ⟨hplain, hafter⟩ := scan_bareSlashes cs hstart fun _ => isPlain_slash
  obtain ⟨hreadable, -⟩ := scan_bareSlashes cs hstart fun _ => isReadable_slash
  rw [Finishes, hplain, hreadable, hafter] at hbare
  exact hbare

end

end Sift.Pattern
