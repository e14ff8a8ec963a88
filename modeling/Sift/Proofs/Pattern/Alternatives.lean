import Sift.Proofs.Number.Reading
import Sift.Proofs.Pattern.Letter
import Sift.Proofs.Pattern.Regex

/-!
# Splitting a regular expression

A pattern is split at the bars outside groups and brackets. `Passes` says that a text is passed
over and in which state the search for bars is behind it; what a regular expression is written
with is passed over part by part, as long as brackets in the names of groups are closed again.
`Regex.alternatives_chars` is the result: the alternatives of the text of a regular expression are
the texts of its branches.
-/

namespace Sift

namespace Pattern

/-! ### Texts that are passed over -/

/-- A text put before the first of several texts. -/
def prepend (text : List Char) (found : List Char × List (List Char)) :
    List Char × List (List Char) :=
  (text ++ found.1, found.2)

/-- Whether the search for bars passes over a text. Its state is the number of groups that are open
and whether it is in brackets. -/
def Passes (before : Nat × Bool) (text : List Char) (behind : Nat × Bool) : Prop :=
  ∀ rest, alternativesFrom before.1 before.2 (text ++ rest)
    = prepend text (alternativesFrom behind.1 behind.2 rest)

namespace Passes

variable {s t u : Nat × Bool} {depth : Nat} {inside : Bool} {c : Char}

theorem nil :
  Passes s [] s
  := fun _ => rfl

theorem append {first second : List Char} (hfirst : Passes s first t)
    (hsecond : Passes t second u) :
  Passes s (first ++ second) u
  := by
  intro rest
  rw [List.append_assoc, hfirst, hsecond, prepend, prepend, prepend, List.append_assoc]

theorem cons {text : List Char} (hc : Passes s [c] t) (h : Passes t text u) :
  Passes s (c :: text) u
  := hc.append h

theorem escape (c : Char) :
  Passes (depth, inside) ['\\', c] (depth, inside)
  := by
  intro rest
  rw [List.cons_append, alternativesFrom.eq_def]
  rfl

/-- In brackets only the closing one matters. -/
theorem inBrackets (hc : c ≠ '\\') :
  Passes (depth, true) [c] (depth, decide (c ≠ ']'))
  := by
  intro rest
  rw [List.cons_append, alternativesFrom.eq_def]
  simp only [if_neg hc]
  rfl

/-- Outside brackets, what is no bar at the top is passed over. -/
theorem outside (hc : c ≠ '\\') (hbar : ¬ (c = '|' ∧ depth = 0)) :
  Passes (depth, false) [c]
    (if c = '(' then depth + 1 else if c = ')' then depth - 1 else depth, decide (c = '['))
  := by
  intro rest
  rw [List.cons_append, alternativesFrom.eq_def]
  simp only [if_neg hc, if_neg hbar]
  rfl

theorem ordinary (hc : c ∉ ['\\', '[', '(', ')', '|']) :
  Passes (depth, false) [c] (depth, false)
  := by
  simp only [List.mem_cons, List.not_mem_nil, or_false, not_or] at hc
  obtain ⟨hbackslash, hbracket, hopen, hclose, hbar⟩ := hc
  have h : Passes (depth, false) [c] _ := outside hbackslash fun h => hbar h.1
  rw [if_neg hopen, if_neg hclose, decide_eq_false hbracket] at h
  exact h

theorem ordinaries {text : List Char} (h : ∀ c ∈ text, c ∉ ['\\', '[', '(', ')', '|']) :
  Passes (depth, false) text (depth, false)
  := by
  induction text with
  | nil => exact nil
  | cons c text ih =>
    apply cons (ordinary (h c (by simp)))
    apply ih fun d hd => h d (by simp [hd])

theorem openBracket :
  Passes (depth, false) ['['] (depth, true)
  := outside (by decide) (by simp)

theorem closeBracket :
  Passes (depth, true) [']'] (depth, false)
  := inBrackets (by decide)

theorem openGroup :
  Passes (depth, false) ['('] (depth + 1, false)
  := outside (by decide) (by simp)

theorem closeGroup :
  Passes (depth + 1, false) [')'] (depth, false)
  := outside (by decide) (by simp)

/-- In a group a bar is passed over. -/
theorem bar :
  Passes (depth + 1, false) ['|'] (depth + 1, false)
  := outside (by decide) (by simp)

end Passes

end Pattern

open Pattern

namespace Regex

/-! ### Parts of a regular expression -/

theorem isAlphanum_of_isRange {first last : Char} (h : isRange first last = true) :
  first.isAlphanum = true ∧ last.isAlphanum = true
  := by
  simp only [isRange, Bool.and_eq_true, Bool.or_eq_true, isDigit_iff, isLower_iff, isUpper_iff] at h
  simp only [isAlphanum_iff, isAlpha_iff, isDigit_iff]
  omega

theorem isRange_ne {first last c : Char} (h : isRange first last = true)
    (hc : c.isAlphanum = false) :
  first ≠ c ∧ last ≠ c
  := by
  obtain ⟨hfirst, hlast⟩ := isAlphanum_of_isRange h
  constructor
  · rintro rfl
    rw [hfirst] at hc
    cases hc
  · rintro rfl
    rw [hlast] at hc
    cases hc

theorem Member.passes (member : Member) (depth : Nat) :
  Passes (depth, true) member.chars (depth, true)
  := by
  have hplain {c : Char} (hbackslash : c ≠ '\\') (hclose : c ≠ ']') :
      Passes (depth, true) [c] (depth, true) := by
    have h : Passes (depth, true) [c] _ := Passes.inBrackets hbackslash
    rw [decide_eq_true hclose] at h
    exact h
  cases member with
  | literal c h =>
    apply hplain
    · rintro rfl
      exact h (by decide)
    · rintro rfl
      exact h (by decide)
  | shorthand kind => apply Passes.escape
  | range first last h =>
    have hbackslash := isRange_ne h (by decide : ('\\').isAlphanum = false)
    have hclose := isRange_ne h (by decide : (']').isAlphanum = false)
    apply Passes.cons (hplain hbackslash.1 hclose.1)
    apply Passes.cons (hplain (by decide) (by decide))
    apply hplain hbackslash.2 hclose.2

theorem passes_members (members : List Member) (depth : Nat) :
  Passes (depth, true) (members.flatMap Member.chars) (depth, true)
  := by
  induction members with
  | nil => exact .nil
  | cons member members ih =>
    rw [List.flatMap_cons]
    apply (member.passes depth).append ih

/-- A name is passed over if its brackets close. -/
theorem passes_name {name : List Char} {inside : Bool} (depth : Nat)
    (hname : ∀ c ∈ name, c ∉ ['\\', '(', ')', '|']) (hclose : bracketsClose inside name = true) :
  Passes (depth, inside) name (depth, false)
  := by
  induction name generalizing inside with
  | nil =>
    rw [bracketsClose, Bool.not_eq_true'] at hclose
    rw [hclose]
    exact .nil
  | cons c name ih =>
    have hrest := ih (fun d hd => hname d (by simp [hd])) hclose
    have hc := hname c (by simp)
    simp only [List.mem_cons, List.not_mem_nil, or_false, not_or] at hc
    obtain ⟨hbackslash, hopen, hshut, hbar⟩ := hc
    cases inside with
    | true => apply Passes.cons (Passes.inBrackets hbackslash) hrest
    | false =>
      have h : Passes (depth, false) [c] _ := Passes.outside hbackslash fun h => hbar h.1
      rw [if_neg hopen, if_neg hshut] at h
      apply Passes.cons h hrest

theorem ne_of_isNameChar {first : Bool} {c : Char} (h : isNameChar first c = true) :
  c ∉ ['\\', '(', ')', '|', '>', '=', '!']
  := by
  apply not_mem_of_all h
  cases first <;> decide +kernel

theorem ne_of_mem_isGroupName {name : List Char} (h : isGroupName name = true) :
  ∀ c ∈ name, c ∉ ['\\', '(', ')', '|', '>', '=', '!']
  := by
  cases name with
  | nil => simp
  | cons c rest =>
    rw [isGroupName, Bool.and_eq_true, List.all_eq_true] at h
    intro d hd
    obtain rfl | hd := List.mem_cons.mp hd
    · apply ne_of_isNameChar h.1
    · apply ne_of_isNameChar (h.2 d hd)

theorem GroupKind.passes (kind : GroupKind)
    (h : ∀ name ∈ kind.names, bracketsClose false name = true) (depth : Nat) :
  Passes (depth, false) kind.chars (depth + 1, false)
  := by
  cases kind with
  | plain => apply Passes.openGroup
  | uncaptured =>
    apply Passes.cons Passes.openGroup
    apply Passes.ordinaries
    simp
  | named name hname =>
    have hchars : ∀ c ∈ name, c ∉ ['\\', '(', ')', '|'] := by
      intro c hc hmem
      apply ne_of_mem_isGroupName hname c hc
      apply List.mem_append_left ['>', '=', '!'] hmem
    apply Passes.cons Passes.openGroup
    apply Passes.cons (Passes.ordinary (by decide))
    apply Passes.cons (Passes.ordinary (by decide))
    apply (passes_name (depth + 1) hchars (h name (by simp [names]))).append
    apply Passes.ordinary (by decide)

theorem Quantifier.passes (quantifier : Quantifier) (depth : Nat) :
  Passes (depth, false) quantifier.chars (depth, false)
  := by
  have hdigits (n : Nat) : Passes (depth, false) (digits n) (depth, false) := by
    apply Passes.ordinaries
    intro c hc
    apply not_mem_of_all (Decimal.isDigit_of_mem_digits c hc) (by decide)
  cases quantifier with
  | star => apply Passes.ordinary (by decide)
  | plus => apply Passes.ordinary (by decide)
  | optional => apply Passes.ordinary (by decide)
  | exactly n =>
    apply Passes.append (Passes.cons (Passes.ordinary (by decide)) (hdigits n))
    apply Passes.ordinary (by decide)
  | atLeast n =>
    apply Passes.append (Passes.cons (Passes.ordinary (by decide)) (hdigits n))
    apply Passes.ordinaries
    simp
  | between low high =>
    apply Passes.append
    · apply Passes.append (Passes.cons (Passes.ordinary (by decide)) (hdigits low))
      apply Passes.cons (Passes.ordinary (by decide)) (hdigits high)
    · apply Passes.ordinary (by decide)

theorem passes_quantifierChars (quantifier : Option Quantifier) (depth : Nat) :
  Passes (depth, false) (quantifierChars quantifier) (depth, false)
  := by
  cases quantifier with
  | none => exact .nil
  | some quantifier => apply quantifier.passes

mutual

theorem Atom.passes (atom : Atom) (h : ∀ name ∈ atom.names, bracketsClose false name = true)
    (depth : Nat) :
  Passes (depth, false) atom.chars (depth, false)
  := by
  cases atom with
  | literal c hc =>
    apply Passes.ordinary
    intro hmem
    have hspecial : ['\\', '[', '(', ')', '|'] ⊆ metacharacters := by decide
    apply hc (hspecial hmem)
  | escaped c => apply Passes.escape
  | dot => apply Passes.ordinary (by decide)
  | shorthand negated kind => apply Passes.escape
  | brackets negated first others =>
    have hmembers := passes_members (first :: others) depth
    rw [Atom.chars, bracketed]
    apply Passes.cons Passes.openBracket
    apply Passes.append _ Passes.closeBracket
    cases negated with
    | false => exact hmembers
    | true =>
      apply Passes.cons _ hmembers
      apply Passes.inBrackets (by decide)
  | group kind inner =>
    rw [Atom.names, List.forall_mem_append] at h
    rw [Atom.chars]
    apply Passes.append _ Passes.closeGroup
    apply (kind.passes h.1 depth).append (inner.passes h.2 depth)

theorem Sequence.passes (sequence : Sequence)
    (h : ∀ name ∈ sequence.names, bracketsClose false name = true) (depth : Nat) :
  Passes (depth, false) sequence.chars (depth, false)
  := by
  cases sequence with
  | nil => exact .nil
  | cons atom quantifier rest =>
    rw [Sequence.names, List.forall_mem_append] at h
    rw [Sequence.chars]
    apply Passes.append _ (rest.passes h.2 depth)
    apply (atom.passes h.1 depth).append (passes_quantifierChars quantifier depth)

/-- In a group the bars between alternatives are passed over. -/
theorem Alternatives.passes (alternatives : Alternatives)
    (h : ∀ name ∈ alternatives.names, bracketsClose false name = true) (depth : Nat) :
  Passes (depth + 1, false) alternatives.chars (depth + 1, false)
  := by
  cases alternatives with
  | last sequence =>
    rw [Alternatives.names] at h
    apply sequence.passes h
  | cons sequence rest =>
    rw [Alternatives.names, List.forall_mem_append] at h
    rw [Alternatives.chars]
    apply (sequence.passes h.1 (depth + 1)).append
    apply Passes.cons Passes.bar (rest.passes h.2 depth)

end

theorem Branch.passes (branch : Branch)
    (h : ∀ name ∈ branch.body.names, bracketsClose false name = true) (depth : Nat) :
  Passes (depth, false) branch.chars (depth, false)
  := by
  apply Passes.append
  · apply Passes.append _ (branch.body.passes h depth)
    apply Passes.ordinaries
    cases branch.atStart <;> simp
  · apply Passes.ordinaries
    cases branch.atEnd <;> simp

/-! ### Alternatives at the top -/

theorem alternatives_of_passes {text : List Char} (h : Passes (0, false) text (0, false)) :
  alternatives text = [text]
  := by
  have hfound := h []
  rw [List.append_nil] at hfound
  rw [Pattern.alternatives, hfound]
  simp [prepend, alternativesFrom]

theorem alternatives_of_passes_bar {text : List Char} (h : Passes (0, false) text (0, false))
    (rest : List Char) :
  alternatives (text ++ '|' :: rest) = text :: alternatives rest
  := by
  have hbar : alternativesFrom 0 false ('|' :: rest) = ([], alternatives rest) := by
    rw [alternativesFrom.eq_def]
    rfl
  rw [Pattern.alternatives, h, hbar]
  simp [prepend]

/-- The alternatives of the text of a regular expression are the texts of its branches. -/
theorem alternatives_chars (regex : Regex)
    (h : ∀ name ∈ regex.names, bracketsClose false name = true) :
  alternatives regex.chars = regex.branches.map Branch.chars
  := by
  obtain ⟨first, others⟩ := regex
  have hpasses : ∀ branch ∈ first :: others, Passes (0, false) branch.chars (0, false) := by
    intro branch hbranch
    apply branch.passes
    intro name hname
    apply h name (List.mem_flatMap.mpr ⟨branch, hbranch, hname⟩)
  clear h
  change alternatives (['|'].intercalate ((first :: others).map Branch.chars)) = _
  simp only [branches]
  induction others generalizing first with
  | nil =>
    rw [List.map_singleton, List.intercalate_singleton,
      alternatives_of_passes (hpasses first (by simp))]
  | cons second others ih =>
    rw [List.map_cons, List.map_cons, List.intercalate_cons_cons, List.append_assoc,
      List.singleton_append, alternatives_of_passes_bar (hpasses first (by simp)), ← List.map_cons,
      ih second fun branch hbranch => hpasses branch (by simp [hbranch])]

end Regex

end Sift
