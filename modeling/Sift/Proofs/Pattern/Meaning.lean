import Sift.Proofs.Pattern.Brackets

/-!
# Meaning of converted patterns

What the engine reads of the piece for a part of a regular expression has the language of the part,
where a dot matches line breaks as well: `Atom.isPart_piece` and the like. Terms without line breaks
do not tell the difference. `Regex.toEngine_text` is the result: a regular expression is written for
the engine as a pattern that matches a whole term exactly if the regular expression matches
somewhere in the term.
-/

namespace Sift.Regex

open Pattern Dialect

variable (lineBreak : Char → Prop) (ignoreCase : Bool)

/-! ### Quantifiers -/

theorem span_digits (n : Nat) {rest : List Char} (hrest : ∀ c ∈ rest.head?, c = ',') :
  (digits n ++ rest).span (· ≠ ',') = (digits n, rest)
  := by
  have hdigits : ∀ c ∈ digits n, decide (c ≠ ',') = true := by
    intro c hc
    rw [decide_eq_true_eq]
    rintro rfl
    have hdigit := Decimal.isDigit_of_mem_digits ',' hc
    exact absurd hdigit (by decide)
  rw [List.span_eq_takeWhile_dropWhile, List.takeWhile_append_of_pos hdigits,
    List.dropWhile_append_of_pos hdigits]
  cases rest with
  | nil => simp
  | cons c rest =>
    obtain rfl := hrest c rfl
    simp

theorem number?_digits (n : Nat) :
  number? (digits n) = some n
  := by
  have hall : (digits n).all Char.isDigit = true :=
    List.all_eq_true.mpr Decimal.isDigit_of_mem_digits
  have hne : (digits n).isEmpty = false := by
    rw [List.isEmpty_eq_false_iff]
    apply Nat.toDigits_ne_nil
  rw [number?, hall, hne]
  apply congrArg some (Number.digitsValue_toDigits n)

theorem isPart_quantifierChars {text : List Char} {L : Language Char} (h : IsPart text L)
    (quantifier : Option Quantifier) :
  IsPart (text ++ quantifierChars quantifier) (quantified quantifier L)
  := by
  have hclose {n : Nat} : '\x7d' ∉ digits n := by
    intro hmem
    exact absurd (Decimal.isDigit_of_mem_digits _ hmem) (by decide)
  cases quantifier with
  | none =>
    rw [quantifierChars, Option.elim_none, List.append_nil]
    exact h
  | some quantifier =>
    cases quantifier with
    | star => apply h.sign (by decide) rfl
    | plus => apply h.sign (by decide) rfl
    | optional => apply h.sign (by decide) rfl
    | exactly n =>
      apply h.counts hclose
      have hspan := span_digits n (by simp : ∀ c ∈ ([] : List Char).head?, c = ',')
      rw [List.append_nil] at hspan
      rw [boundsOf?, hspan]
      simp [number?_digits, Quantifier.bounds]
    | atLeast n =>
      have hcounts : (Quantifier.atLeast n).chars = '\x7b' :: (digits n ++ [',']) ++ ['\x7d'] := by
        simp [Quantifier.chars]
      rw [quantifierChars, Option.elim_some, hcounts]
      apply h.counts
      · simp [hclose]
      · rw [boundsOf?, span_digits n (by simp)]
        simp [number?_digits, Quantifier.bounds]
    | between low high =>
      have hcounts : (Quantifier.between low high).chars
          = '\x7b' :: (digits low ++ ',' :: digits high) ++ ['\x7d'] := by
        simp [Quantifier.chars]
      rw [quantifierChars, Option.elim_some, hcounts]
      apply h.counts
      · simp [hclose]
      · have hhigh : digits high ≠ [] := Nat.toDigits_ne_nil
        obtain ⟨c, cs, hcs⟩ := List.exists_cons_of_ne_nil hhigh
        have hnumber := number?_digits high
        rw [boundsOf?, span_digits low (by simp)]
        rw [hcs] at hnumber ⊢
        simp [number?_digits, hnumber, Quantifier.bounds]

/-! ### Atoms, sequences and alternatives -/

variable {ignoreCase}

theorem language_char {c : Char} (h : (c.isAlpha && ignoreCase) = false) :
  (Expr.one (.char c)).language = single (Same ignoreCase c)
  := by
  apply single_congr
  intro d
  have hletter := inRanges_letter ignoreCase c d
  rw [if_neg (by simp [h])] at hletter
  rw [Class.char, Class.has_iff, hletter]
  simp

theorem isPart_bare {c : Char} (hoperator : c ∉ operators) (hreserved : c ∉ reserved)
    (hdot : c ≠ '.') (hletter : (c.isAlpha && ignoreCase) = false) :
  IsPart [c] (single (Same ignoreCase c))
  := by
  use .one (.char c)
  refine ⟨reads_bare hoperator ?_, language_char hletter⟩
  rw [bareClass?, if_neg hdot, if_neg (by simpa using hreserved)]

theorem isPart_literalPiece {c : Char} (hc : c ∉ metacharacters) :
  IsPart (literalPiece ignoreCase c) (single (Same ignoreCase c))
  := by
  have hoperator : c ∉ operators := by
    have hall : operators ⊆ metacharacters := by decide
    exact fun hmem => hc (hall hmem)
  have hdot : c ≠ '.' := by
    rintro rfl
    exact hc (by decide)
  by_cases hletter : (c.isAlpha && ignoreCase) = true
  · have hboth := hletter
    rw [Bool.and_eq_true] at hboth
    have hmember : c ∉ bracketMetacharacters := not_mem_of_all hboth.1 (by decide)
    have h := isPart_bracketed ignoreCase false (List.cons_ne_nil (Member.literal c hmember) [])
    simpa [Member.piece, Member.Has, letterPiece, literalPiece, bracketed, hboth, IsSomeOf] using h
  · rw [Bool.not_eq_true] at hletter
    by_cases hreserved : c ∈ reserved
    · have hpiece : literalPiece ignoreCase c = ['\\', c] := by
        have halpha : c.isAlpha ≠ true := fun h => not_mem_of_all h (by decide) hreserved
        simp [literalPiece, halpha, hreserved]
      rw [hpiece]
      exact ⟨_, reads_escape c, language_char hletter⟩
    · have hpiece : literalPiece ignoreCase c = [c] := by
        rw [literalPiece]
        cases hc : c.isAlpha with
        | true => simpa [hc] using hletter
        | false => simp [hreserved]
      rw [hpiece]
      apply isPart_bare hoperator hreserved hdot hletter

theorem isPart_escaped {c : Char} (hc : c.isAlphanum = false) :
  IsPart (if c = '/' then ['/'] else ['\\', c]) (single (Same ignoreCase c))
  := by
  have hletter : (c.isAlpha && ignoreCase) = false := by
    rw [Char.isAlphanum, Bool.or_eq_false_iff] at hc
    rw [hc.1, Bool.false_and]
  split
  case isTrue heq =>
    subst heq
    apply isPart_bare (by decide) (by decide) (by decide) hletter
  case isFalse => exact ⟨_, reads_escape c, language_char hletter⟩

theorem isPart_dot :
  IsPart ['.'] (single fun _ => True)
  := by
  use .one .any
  constructor
  · apply reads_bare (by decide) rfl
  · apply single_congr
    intro c
    rw [Class.any, Class.has_iff, inRanges_nil]
    simp

variable (ignoreCase)

mutual

/-- The piece for an atom is one part with the language of the atom. -/
theorem Atom.isPart_piece (atom : Atom) :
  IsPart (atom.piece ignoreCase) (atom.language (fun _ => False) ignoreCase)
  := by
  cases atom with
  | literal c hc => apply isPart_literalPiece hc
  | escaped c hc => apply isPart_escaped hc
  | dot =>
    rw [Atom.language, single_congr fun _ => iff_of_true not_false trivial]
    apply isPart_dot
  | shorthand negated kind =>
    have h := isPart_bracketed ignoreCase negated (List.cons_ne_nil (Member.shorthand kind) [])
    simpa [Member.piece, Member.Has, Atom.piece, Atom.language] using h
  | brackets negated first others => apply isPart_bracketed ignoreCase negated (by simp)
  | group kind inner => apply (inner.areAlternatives_piece).group

theorem Sequence.areParts_piece (sequence : Sequence) :
  AreParts (sequence.piece ignoreCase) (sequence.language (fun _ => False) ignoreCase)
  := by
  cases sequence with
  | nil => exact AreParts.nil
  | cons atom quantifier rest =>
    apply AreParts.append _ rest.areParts_piece
    apply (isPart_quantifierChars atom.isPart_piece quantifier).areParts

theorem Alternatives.areAlternatives_piece (alternatives : Alternatives) :
  AreAlternatives (alternatives.piece ignoreCase)
    (alternatives.language (fun _ => False) ignoreCase)
  := by
  cases alternatives with
  | last sequence => apply sequence.areParts_piece.areAlternatives
  | cons sequence rest => apply sequence.areParts_piece.bar rest.areAlternatives_piece

end

/-! ### Line breaks -/

mutual

/-- Whether a dot matches line breaks makes no difference to texts without line breaks. -/
theorem Atom.agreeOn (atom : Atom) :
  AgreeOn (fun c => ¬ lineBreak c) (atom.language lineBreak ignoreCase)
    (atom.language (fun _ => False) ignoreCase)
  := by
  cases atom with
  | dot =>
    apply AgreeOn.single
    intro c hc
    exact iff_of_true hc not_false
  | group kind inner => apply inner.agreeOn
  | _ => apply AgreeOn.refl

theorem Sequence.agreeOn (sequence : Sequence) :
  AgreeOn (fun c => ¬ lineBreak c) (sequence.language lineBreak ignoreCase)
    (sequence.language (fun _ => False) ignoreCase)
  := by
  cases sequence with
  | nil => apply AgreeOn.refl
  | cons atom quantifier rest =>
    apply AgreeOn.mul _ rest.agreeOn
    cases quantifier with
    | none => apply atom.agreeOn
    | some quantifier => apply atom.agreeOn.repeated

theorem Alternatives.agreeOn (alternatives : Alternatives) :
  AgreeOn (fun c => ¬ lineBreak c) (alternatives.language lineBreak ignoreCase)
    (alternatives.language (fun _ => False) ignoreCase)
  := by
  cases alternatives with
  | last sequence => apply sequence.agreeOn
  | cons sequence rest => apply sequence.agreeOn.add rest.agreeOn

end

/-! ### Branches -/

/-- The texts that may stand before or behind what a branch matches. -/
def around (anchored : Bool) : Language Char :=
  if anchored then 1 else repeated 0 none (single fun _ => True)

theorem mem_around {anchored : Bool} {s : List Char} :
  s ∈ around anchored ↔ (anchored = true → s = [])
  := by
  cases anchored with
  | true => simp [around, Language.mem_one]
  | false => exact iff_of_true (mem_anything s) nofun

theorem areParts_around (anchored : Bool) :
  AreParts (if anchored then [] else anyRun) (around anchored)
  := by
  cases anchored with
  | true => exact AreParts.nil
  | false =>
    have h : IsPart anyRun _ := isPart_dot.sign (by decide : '*' = '*' ∨ '*' = '+' ∨ '*' = '?') rfl
    exact h.areParts

theorem Branch.mem_iff (branch : Branch) (term : List Char) :
  term ∈ around branch.atStart * branch.body.language lineBreak ignoreCase * around branch.atEnd
    ↔ branch.MatchesIn lineBreak ignoreCase term
  := by
  simp only [Language.mem_mul, MatchesIn, mem_around]
  constructor
  · rintro ⟨_, ⟨before, hbefore, found, hfound, rfl⟩, behind, hbehind, rfl⟩
    exact ⟨before, found, behind, rfl, hfound, hbefore, hbehind⟩
  · rintro ⟨before, found, behind, rfl, hfound, hbefore, hbehind⟩
    exact ⟨_, ⟨before, hbefore, found, hfound, rfl⟩, behind, hbehind, rfl⟩

/-- The piece for a branch matches the whole of the terms in which the branch matches. -/
theorem Branch.areParts_piece (branch : Branch) :
  ∃ L, AreParts (branch.piece ignoreCase) L
    ∧ ∀ term, term ∈ L ↔ branch.MatchesIn (fun _ => False) ignoreCase term
  := by
  have hbody := branch.body.areParts_piece ignoreCase
  rw [piece]
  split
  case isTrue hshort =>
    simp only [Bool.and_eq_true, List.isEmpty_iff, Bool.not_eq_true'] at hshort
    -- One wildcard is written for both ends and the empty body between them.
    obtain ⟨⟨hempty, hstart⟩, hend⟩ := hshort
    rw [hempty] at hbody
    use around false, areParts_around false
    intro term
    rw [← branch.mem_iff, hbody.eq_one, hstart, hend, mul_one]
    have hall (s : List Char) : s ∈ around false := mem_anything s
    apply iff_of_true (hall term)
    rw [← List.append_nil term]
    apply Language.append_mem_mul (hall term) (hall [])
  case isFalse =>
    refine ⟨_, ?_, branch.mem_iff _ _⟩
    apply ((areParts_around _).append hbody).append (areParts_around _)

theorem areAlternatives_branches (first : Branch) (others : List Branch) :
  ∃ L, AreAlternatives (['|'].intercalate ((first :: others).map (Branch.piece ignoreCase))) L
    ∧ ∀ term, term ∈ L
      ↔ ∃ branch ∈ first :: others, branch.MatchesIn (fun _ => False) ignoreCase term
  := by
  obtain ⟨L, hL, hmemL⟩ := first.areParts_piece ignoreCase
  induction others generalizing first L with
  | nil =>
    use L
    rw [List.map_singleton, List.intercalate_singleton]
    exact ⟨hL.areAlternatives, by simpa using hmemL⟩
  | cons second others ih =>
    obtain ⟨M, hM, hmemM⟩ := second.areParts_piece ignoreCase
    obtain ⟨N, hN, hmemN⟩ := ih second M hM hmemM
    use L + N
    rw [List.map_cons, List.map_cons, List.intercalate_cons_cons, List.append_assoc,
      List.singleton_append, ← List.map_cons]
    refine ⟨hL.bar hN, ?_⟩
    intro term
    simp only [Language.mem_add, hmemL, hmemN, List.exists_mem_cons_iff]

theorem Branch.matchesIn_iff (branch : Branch) {term : List Char}
    (hterm : ∀ c ∈ term, ¬ lineBreak c) :
  branch.MatchesIn lineBreak ignoreCase term ↔ branch.MatchesIn (fun _ => False) ignoreCase term
  := by
  have hagree : AgreeOn (fun c => ¬ lineBreak c)
      (around branch.atStart * branch.body.language lineBreak ignoreCase * around branch.atEnd)
      (around branch.atStart * branch.body.language (fun _ => False) ignoreCase
        * around branch.atEnd) :=
    ((AgreeOn.refl _).mul (branch.body.agreeOn lineBreak ignoreCase)).mul (AgreeOn.refl _)
  rw [← branch.mem_iff, ← branch.mem_iff, hagree term hterm]

/-! ### Patterns for the engine -/

/-- A regular expression that passes the syntax check is written for the engine as a pattern which
matches exactly the terms in which the regular expression matches, among those without line breaks,
if the brackets in the names of its groups close. -/
theorem toEngine_text (regex : Regex)
    (hnames : ∀ name ∈ regex.names, bracketsClose false name = true)
    (hcheck : check regex.chars = .ok ()) :
  ∃ pattern, toEngine regex.text ignoreCase = .ok pattern
    ∧ ∀ term : String, (∀ c ∈ term.toList, ¬ lineBreak c) →
      (Dialect.Matches pattern term ↔ regex.MatchesIn lineBreak ignoreCase term)
  := by
  obtain ⟨L, hL, hmem⟩ := areAlternatives_branches ignoreCase regex.first regex.others
  obtain ⟨expr, hread, rfl⟩ := hL.read?
  use String.ofList (['|'].intercalate (regex.branches.map (Branch.piece ignoreCase)))
  constructor
  · rw [toEngine, text, String.toList_ofList, convert_chars ignoreCase regex hnames hcheck]
    rfl
  · intro term hterm
    have hmatches : regex.MatchesIn lineBreak ignoreCase term ↔ term.toList ∈ expr.language := by
      rw [hmem]
      simp only [Regex.MatchesIn, Branch.matchesIn_iff lineBreak ignoreCase _ hterm]
      rfl
    rw [hmatches, Dialect.Matches, String.toList_ofList]
    constructor
    · rintro ⟨found, hfound, hterm⟩
      obtain rfl : expr = found := Option.some.inj (hread.symm.trans hfound)
      exact hterm
    · intro hterm
      exact ⟨expr, hread, hterm⟩

/-- Alternatives in a group with a name, with both anchors outside. -/
def yearOrMark : Regex where
  first :=
    { atStart := true
      body := .cons (.group (.named ['y'] (by decide +kernel))
        (.cons (.cons (.brackets false (.range '0' '9' (by decide)) []) (some (.exactly 4)) .nil)
          (.last (.cons .dot (some .optional) .nil)))) none .nil
      atEnd := false }
  others :=
    [{ atStart := false, body := .cons (.literal 'x' (by decide)) none .nil, atEnd := true }]

theorem toEngine_yearOrMark :
  (∀ name ∈ yearOrMark.names, bracketsClose false name = true)
    ∧ check yearOrMark.chars = .ok ()
    ∧ ∃ pattern, toEngine yearOrMark.text true = .ok pattern
      ∧ ∀ term : String, (∀ c ∈ term.toList, c ≠ '\n') →
        (Dialect.Matches pattern term ↔ yearOrMark.MatchesIn (· = '\n') true term)
  := by
  have hnames : ∀ name ∈ yearOrMark.names, bracketsClose false name = true := by decide
  have hcheck : check yearOrMark.chars = .ok () := by decide +kernel
  exact ⟨hnames, hcheck, toEngine_text (· = '\n') true yearOrMark hnames hcheck⟩

/-- Alternatives behind a name with a bracket that is not closed. -/
def openName : Regex where
  first :=
    { atStart := false
      body := .cons (.group (.named ['a', '['] (by decide +kernel))
        (.last (.cons (.literal 'b' (by decide)) none .nil))) none .nil
      atEnd := false }
  others :=
    [{ atStart := false, body := .cons (.literal 'c' (by decide)) none .nil, atEnd := false }]

/-- The bar behind a bracket in a name is not found, and no wildcards stand next to it. -/
theorem toEngine_openName :
  check openName.chars = .ok () ∧ toEngine openName.text false = .ok ".*(b)|c.*"
    ∧ openName.MatchesIn (· = '\n') false "ac" ∧ ¬ Dialect.Matches ".*(b)|c.*" "ac"
  := by
  refine ⟨by decide +kernel, by decide +kernel, ?_, ?_⟩
  · refine ⟨_, List.mem_cons_of_mem _ List.mem_cons_self, ['a'], ['c'], [], rfl, ?_, nofun, nofun⟩
    have hc : ['c'] ∈ single (Same false 'c') := ⟨'c', .inl rfl, rfl⟩
    apply Language.append_mem_mul hc Language.nil_mem_one
  · have hread : read? ".*(b)|c.*".toList = some (.either
        (.sequence (.repetition 0 none (.one .any))
          (.sequence (.sequence (.one (.char 'b')) .empty) .empty))
        (.sequence (.one (.char 'c')) (.sequence (.repetition 0 none (.one .any)) .empty))) := by
      decide +kernel
    rintro ⟨expr, hexpr, hterm⟩
    obtain rfl := Option.some.inj (hread.symm.trans hexpr)
    simp only [Expr.language, Language.mem_add, mul_one] at hterm
    obtain h | h := hterm
    · obtain ⟨before, -, _, ⟨c, hc, rfl⟩, heq⟩ := Language.mem_mul.mp h
      have hsplit := heq.trans (by rfl : "ac".toList = ['a'] ++ ['c'])
      obtain rfl := List.singleton_inj.mp (List.append_inj_right' hsplit rfl)
      exact absurd hc (by decide)
    · obtain ⟨_, ⟨c, hc, rfl⟩, behind, -, heq⟩ := Language.mem_mul.mp h
      obtain ⟨rfl, -⟩ := List.cons.inj heq
      exact absurd hc (by decide)

end Sift.Regex
