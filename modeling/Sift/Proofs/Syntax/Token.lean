import Mathlib.Tactic.Use
import Sift.Query.Parser
import Sift.Query.Printer
import Sift.Proofs.Number.Reading

/-!
# Tokens of printed queries

Each token that a query is printed with is found again at the beginning of a text, whatever comes
behind it, as long as that does not go on with a word. `LiteralBody` says what may stand between
the two signs around a literal.
-/

namespace Sift.Syntax

/-! ### Runs of characters -/

theorem run_append {test : Char → Bool} {cs rest : List Char} (hcs : ∀ c ∈ cs, test c = true)
    (hrest : ∀ c ∈ rest.head?, test c = false) :
  run test (cs ++ rest) = ⟨cs, cs, rest⟩
  := by
  have htake : rest.takeWhile test = [] := by
    cases rest with
    | nil => rfl
    | cons c rest => simp [hrest c rfl]
  have hdrop : rest.dropWhile test = rest := by
    cases rest with
    | nil => rfl
    | cons c rest => simp [hrest c rfl]
  rw [run, List.takeWhile_append_of_pos hcs, List.dropWhile_append_of_pos hcs, htake, hdrop,
    List.append_nil]

theorem someRun_append {test : Char → Bool} {cs rest : List Char} (hne : cs ≠ [])
    (hcs : ∀ c ∈ cs, test c = true) (hrest : ∀ c ∈ rest.head?, test c = false) :
  someRun test (cs ++ rest) = some ⟨cs, cs, rest⟩
  := by
  have hvalue := congrArg Lexeme.value (run_append hcs hrest)
  simp only [run] at hvalue
  rw [someRun, hvalue, run_append hcs hrest, if_neg (by simpa using hne)]

theorem someRun_eq_none {test : Char → Bool} {cs : List Char}
    (h : ∀ c ∈ cs.head?, test c = false) :
  someRun test cs = none
  := by
  cases cs with
  | nil => rfl
  | cons c cs => simp [someRun, h c rfl]

/-! ### Words -/

theorem isBare_of_isAlphanum {c : Char} (h : c.isAlphanum = true) :
  isBare c = true
  := by
  simp [isBare, h]

theorem isBare_of_isAlpha {c : Char} (h : c.isAlpha = true) :
  isBare c = true
  := isBare_of_isAlphanum (by simp [Char.isAlphanum, h])

theorem isBare_of_isDigit {c : Char} (h : c.isDigit = true) :
  isBare c = true
  := isBare_of_isAlphanum (by simp [Char.isAlphanum, h])

theorem isBare_of_isIdentifierChar {c : Char} (h : isIdentifierChar c = true) :
  isBare c = true
  := by
  simp only [isIdentifierChar, Bool.or_eq_true, decide_eq_true_eq] at h
  rcases h with (h | rfl) | rfl
  · exact isBare_of_isAlphanum h
  · decide
  · decide

/-- What cannot go on a word cannot go on a token made of such characters. -/
theorem not_of_endsWord {test : Char → Bool} {rest : List Char} (h : endsWord rest = true)
    (htest : ∀ c, test c = true → isBare c = true) :
  ∀ c ∈ rest.head?, test c = false
  := by
  intro c hc
  rw [Option.mem_def] at hc
  rw [endsWord, hc] at h
  by_contra hne
  have hbare := htest c (by simpa using hne)
  simp [hbare] at h

/-! ### Names and operators -/

/-- Whether a text is an identifier. -/
def isIdentifier : List Char → Bool
  | [] => false
  | c :: rest => isIdentifierStart c && rest.all isIdentifierChar

theorem identifier_append {name rest : List Char} (hname : isIdentifier name = true)
    (hrest : endsWord rest = true) :
  identifier (name ++ rest) = some ⟨name, name, rest⟩
  := by
  cases name with
  | nil => cases hname
  | cons c name =>
    rw [isIdentifier, Bool.and_eq_true, List.all_eq_true] at hname
    have hrun := run_append hname.2 (not_of_endsWord hrest fun _ => isBare_of_isIdentifierChar)
    simp only [List.cons_append, identifier, hname.1, if_true, hrun]

/-- What is found as an identifier is one. -/
theorem isIdentifier_of_identifier {cs : List Char} {found : Lexeme (List Char)}
    (h : identifier cs = some found) :
  isIdentifier found.value = true
  := by
  cases cs with
  | nil => cases h
  | cons c cs =>
    simp only [identifier] at h
    split at h
    case isTrue hc =>
      cases h
      simp only [isIdentifier, run, hc, Bool.true_and, List.all_takeWhile]
    case isFalse => cases h

theorem operator_of_word {word rest : List Char} (hne : word ≠ [])
    (hword : ∀ c ∈ word, c.isAlpha = true) (hrest : endsWord rest = true) :
  operator (word ++ rest) = some ⟨word, word, rest⟩
  := by
  have hrun := someRun_append hne hword (not_of_endsWord hrest fun _ => isBare_of_isAlpha)
  cases word with
  | nil => exact absurd rfl hne
  | cons c word =>
    have hc : c ≠ '!' := by
      rintro rfl
      exact absurd (hword '!' (by simp)) (by decide)
    rw [List.cons_append] at hrun ⊢
    simp only [operator, wordOperator, hc, if_false, hrun]

theorem operator_of_negated {word rest : List Char} (hne : word ≠ [])
    (hword : ∀ c ∈ word, c.isAlpha = true) (hrest : endsWord rest = true) :
  operator ('!' :: word ++ rest) = some ⟨'!' :: word, '!' :: word, rest⟩
  := by
  have hrun := someRun_append hne hword (not_of_endsWord hrest fun _ => isBare_of_isAlpha)
  simp only [List.cons_append, operator, wordOperator, if_true, hrun, Option.map_some]

theorem isOperatorSign_cases {c : Char} (h : isOperatorSign c = true) :
  c = '=' ∨ c = '<' ∨ c = '>' ∨ c = '!' ∨ c = '~' ∨ c = '^' ∨ c = '$' ∨ c = '#' ∨ c = '+'
  := by
  simpa only [isOperatorSign, List.contains_cons, List.contains_nil, Bool.or_eq_true,
    beq_iff_eq, Bool.false_eq_true, or_false] using h

theorem operator_of_signs {signs rest : List Char} (hne : signs ≠ [])
    (hsigns : ∀ c ∈ signs, isOperatorSign c = true)
    (hrest : ∀ c ∈ rest.head?, c.isAlpha = false ∧ isOperatorSign c = false) :
  operator (signs ++ rest) = some ⟨signs, signs, rest⟩
  := by
  have hrun := someRun_append hne hsigns fun c hc => (hrest c hc).2
  have halpha : ∀ c ∈ signs, c.isAlpha = false := by
    intro c hc
    have := hsigns c hc
    obtain rfl | rfl | rfl | rfl | rfl | rfl | rfl | rfl | rfl := isOperatorSign_cases this <;> rfl
  have hword : wordOperator (signs ++ rest) = none := by
    cases signs with
    | nil => exact absurd rfl hne
    | cons c signs =>
      have hsecond : someRun Char.isAlpha (signs ++ rest) = none := by
        apply someRun_eq_none
        intro d hd
        cases signs with
        | nil => exact (hrest d hd).1
        | cons e signs =>
          cases hd
          exact halpha d (by simp)
      have hfirst : someRun Char.isAlpha (c :: (signs ++ rest)) = none := by
        apply someRun_eq_none
        rintro _ ⟨⟩
        exact halpha c (by simp)
      simp only [List.cons_append, wordOperator, hsecond, hfirst, Option.map_none, ite_self]
  rw [operator, hword]
  exact hrun

/-- The token of an operator is found again. -/
theorem operator_token_append (op : Operator) {rest : List Char} (hword : endsWord rest = true)
    (hsign : ∀ c ∈ rest.head?, isOperatorSign c = false) :
  operator (op.token.toList ++ rest) = some ⟨op.token.toList, op.token.toList, rest⟩
  := by
  have hboth : ∀ c ∈ rest.head?, c.isAlpha = false ∧ isOperatorSign c = false := by
    intro c hc
    exact ⟨not_of_endsWord hword (fun _ => isBare_of_isAlpha) c hc, hsign c hc⟩
  cases op with
  | eq | notEq | gt | gte | lt | lte =>
    exact operator_of_signs (by decide) (List.all_eq_true.1 rfl) hboth
  | contains | like | isIn | present =>
    exact operator_of_word (by decide) (List.all_eq_true.1 rfl) hword
  | notContains | notLike | notIn | absent =>
    exact operator_of_negated (by decide) (List.all_eq_true.1 rfl) hword

theorem operator_eq_none {cs : List Char}
    (h : ∀ c ∈ cs.head?, c ≠ '!' ∧ c.isAlpha = false ∧ isOperatorSign c = false) :
  operator cs = none
  := by
  have halpha : someRun Char.isAlpha cs = none := someRun_eq_none fun c hc => (h c hc).2.1
  have hsigns : someRun isOperatorSign cs = none := someRun_eq_none fun c hc => (h c hc).2.2
  have hword : wordOperator cs = none := by
    cases cs with
    | nil => rfl
    | cons c cs => simp only [wordOperator, (h c rfl).1, if_false, halpha]
  rw [operator, hword]
  exact hsigns

/-! ### Literals between two signs -/

/-- What may stand between two signs around a literal: a backslash takes the character behind it
for itself, and no other character ends the literal. -/
inductive LiteralBody (ends : Char → Bool) : List Char → Prop where
  | nil : LiteralBody ends []
  | plain {c : Char} {body : List Char} (hc : c ≠ '\\') (hends : ends c = false)
      (hbody : LiteralBody ends body) : LiteralBody ends (c :: body)
  | escaped (c : Char) {body : List Char} (hbody : LiteralBody ends body) :
      LiteralBody ends ('\\' :: c :: body)

/-- Whether a character ends a regex. -/
def endsRegex (c : Char) : Bool :=
  c = '/' || isLineEnd c

theorem literalBody_escape (s : List Char) :
  LiteralBody (· = '"') (Value.escape s)
  := by
  induction s with
  | nil => exact .nil
  | cons c s ih =>
    rw [Value.escape]
    split
    case isTrue => exact .escaped c ih
    case isFalse h =>
      rw [not_or] at h
      exact .plain h.2 (by simpa using h.1) ih

theorem unescape_escape (s : List Char) :
  unescape (Value.escape s) = s
  := by
  induction s with
  | nil => rfl
  | cons c s ih =>
    rw [Value.escape]
    split
    case isTrue h =>
      have hc : c = '"' ∨ c = '\x27' ∨ c = '\\' := h.imp_right .inr
      rw [unescape, if_pos rfl, if_pos hc, ih]
    case isFalse h =>
      rw [not_or] at h
      rw [unescape.eq_def]
      simp only [h.2, if_false, ih]

theorem quotedBody_append {quote : Char} (hquote : quote ≠ '\\') {body : List Char}
    (hbody : LiteralBody (· = quote) body) (rest : List Char) :
  quotedBody quote (body ++ quote :: rest) = (body, quote :: rest)
  := by
  induction hbody with
  | nil =>
    rw [List.nil_append, quotedBody.eq_def]
    simp only [hquote, if_false, if_true]
  | plain hc hends _ ih =>
    rw [decide_eq_false_iff_not] at hends
    rw [List.cons_append, quotedBody.eq_def]
    simp only [hc, hends, if_false, ih]
  | escaped c _ ih =>
    rw [List.cons_append, List.cons_append, quotedBody.eq_def]
    simp only [if_true, ih]

/-- A printed string is found again. -/
theorem quoted_append (s rest : List Char) :
  quoted ('"' :: Value.escape s ++ '"' :: rest)
    = some ⟨Value.escape s, '"' :: Value.escape s ++ ['"'], rest⟩
  := by
  have hbody := quotedBody_append (by decide) (literalBody_escape s) rest
  simp only [List.cons_append, quoted, true_or, if_true, hbody]

theorem regexBody_append {body : List Char} (hbody : LiteralBody endsRegex body)
    (rest : List Char) :
  regexBody (body ++ '/' :: rest) = (body, '/' :: rest)
  := by
  induction hbody with
  | nil =>
    rw [List.nil_append, regexBody.eq_def]
    rfl
  | plain hc hends _ ih =>
    rw [endsRegex] at hends
    rw [List.cons_append, regexBody.eq_def]
    simp only [hc, hends, if_false, ih, Bool.false_eq_true]
  | escaped c _ ih =>
    rw [List.cons_append, List.cons_append, regexBody.eq_def]
    simp only [if_true, ih]

/-- A printed regex is found again. -/
theorem regex_append {body flags rest : List Char} (hbody : LiteralBody endsRegex body)
    (hflags : ∀ c ∈ flags, c.isAlpha = true) (hrest : endsWord rest = true) :
  regex ('/' :: body ++ '/' :: (flags ++ rest))
    = some ⟨⟨body, flags⟩, RegexLiteral.text ⟨body, flags⟩, rest⟩
  := by
  have hrun := run_append hflags (not_of_endsWord hrest fun _ => isBare_of_isAlpha)
  simp only [List.cons_append, regex, regexBody_append hbody, hrun]

/-- What is found between the slashes of a regex may stand there. -/
theorem literalBody_of_regexBody {cs body rest : List Char} (h : regexBody cs = (body, '/' :: rest)) :
  LiteralBody endsRegex body
  := by
  fun_induction regexBody cs generalizing body with
  | case1 => cases h
  | case2 => cases h
  | case3 d cs body' rest' hread ih =>
    cases h
    exact .escaped d (ih hread)
  | case4 =>
    cases h
    exact .nil
  | case5 c cs hc hends body' rest' hread ih =>
    cases h
    exact .plain hc (by simpa [endsRegex] using hends) (ih hread)

instance (body : List Char) : Decidable (LiteralBody endsRegex body) :=
  decidable_of_iff (regexBody (body ++ ['/']) = (body, ['/']))
    ⟨literalBody_of_regexBody, fun h => regexBody_append h []⟩

theorem literalBody_of_regex {cs : List Char} {found : Lexeme RegexLiteral}
    (h : regex cs = some found) :
  LiteralBody endsRegex found.value.body
  := by
  rw [regex.eq_def] at h
  split at h
  case h_1 rest =>
    split at h
    case h_1 body rest' hbody =>
      cases h
      exact literalBody_of_regexBody hbody
    case h_2 => cases h
  case h_2 => cases h

/-! ### Numbers and truth values -/

/-- Printed digits with their point are found again. -/
theorem fraction_append {digits rest : List Char} (hdigits : ∀ c ∈ digits, c.isDigit = true)
    (hrest : endsWord rest = true) :
  fraction (Number.pointed digits ++ rest) = ⟨digits, Number.pointed digits, rest⟩
  := by
  cases digits with
  | nil =>
    cases rest with
    | nil => rfl
    | cons c rest =>
      have hc : c ≠ '.' := by
        rintro rfl
        revert hrest
        simp [endsWord, isBare]
      rw [Number.pointed, List.nil_append, fraction.eq_2]
      intro digits h
      exact hc (List.cons.inj h).1
  | cons d digits =>
    have hrun := someRun_append (List.cons_ne_nil d digits) hdigits
      (not_of_endsWord hrest fun _ => isBare_of_isDigit)
    rw [List.cons_append] at hrun
    simp only [Number.pointed, List.cons_append, fraction, hrun]

/-- A printed number is found again. -/
theorem number_append {negative : Bool} {whole digits rest : List Char} (hne : whole ≠ [])
    (hdigits : ∀ c ∈ whole ++ digits, c.isDigit = true) (hrest : endsWord rest = true) :
  ∃ text, number ((if negative then ['-'] else []) ++ whole ++ Number.pointed digits ++ rest)
    = some ⟨.number negative whole digits, text, rest⟩
  := by
  rw [List.forall_mem_append] at hdigits
  have hpoint : ∀ c ∈ (Number.pointed digits ++ rest).head?, c.isDigit = false := by
    cases digits with
    | nil => exact not_of_endsWord hrest fun _ => isBare_of_isDigit
    | cons =>
      rintro _ ⟨⟩
      rfl
  have hwhole := someRun_append hne hdigits.1 hpoint
  have hfraction := fraction_append hdigits.2 hrest
  have hhead : (whole ++ (Number.pointed digits ++ rest)).head? ≠ some '-' := by
    cases whole with
    | nil => exact absurd rfl hne
    | cons c whole =>
      rintro ⟨⟩
      exact absurd (hdigits.1 '-' (by simp)) (by decide)
  cases negative with
  | false =>
    use whole ++ Number.pointed digits
    simp only [number, Bool.false_eq_true, if_false, List.nil_append, List.append_assoc, hhead,
      decide_false, hwhole, hfraction, hrest, if_true]
  | true =>
    use '-' :: (whole ++ Number.pointed digits)
    simp only [number, if_true, List.cons_append, List.nil_append, List.append_assoc,
      List.head?_cons, decide_true, List.drop_one, List.tail_cons, hwhole, hfraction, hrest]

/-- A printed truth value is found again. -/
theorem boolean_append (b : Bool) {rest : List Char} (hrest : endsWord rest = true) :
  ∃ text, boolean ((Value.bool b).printScalar ++ rest) = some ⟨.boolean b, text, rest⟩
  := by
  cases b with
  | false => exact ⟨_, if_pos hrest⟩
  | true => exact ⟨_, if_pos hrest⟩

end Sift.Syntax
