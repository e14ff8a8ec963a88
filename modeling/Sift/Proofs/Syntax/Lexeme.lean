import Sift.Proofs.Syntax.Literal

/-!
# Tokens of any text

What each function that looks for a token finds: `exists_of_identifier`, `operator_eq_some_iff`,
`quoted_eq_some_iff`, `exists_of_regex`. A word is a run of characters of bare words; whether it is
a number, a truth value or neither is settled by the word alone (`wordScalar`), since all three end
where the word does.
-/

namespace Sift.Syntax

/-! ### Where a run stops -/

/-- Whether a text does not go on with a character of a class. -/
def Stops (test : Char → Bool) (rest : List Char) : Prop :=
  ∀ c ∈ rest.head?, test c = false

namespace Stops

variable {test : Char → Bool} {text rest : List Char}

theorem nil :
  Stops test []
  := by
  rintro _ ⟨⟩

theorem cons {c : Char} (h : test c = false) :
  Stops test (c :: rest)
  := by
  rintro _ ⟨⟩
  exact h

theorem mono {other : Char → Bool} (h : Stops other rest)
    (hsub : ∀ c, test c = true → other c = true) :
  Stops test rest
  := by
  intro c hc
  have := h c hc
  by_contra hne
  rw [hsub c (by simpa using hne)] at this
  cases this

theorem append (h : Stops test text) (hrest : Stops test rest) :
  Stops test (text ++ rest)
  := by
  cases text with
  | nil => exact hrest
  | cons c text => exact h

/-- Only the beginning of a text matters. -/
theorem of_append (h : Stops test (text ++ rest)) :
  Stops test text
  := by
  cases text with
  | nil => exact nil
  | cons c text => exact h

end Stops

/-- Where a word ends no token goes on that is made of its characters. -/
theorem stops_isBare_iff {rest : List Char} :
  Stops isBare rest ↔ endsWord rest = true
  := by
  cases rest with
  | nil => simp [Stops, endsWord]
  | cons c rest => simp [Stops, endsWord]

theorem run_eq_iff {test : Char → Bool} {cs text rest : List Char} :
  run test cs = ⟨text, text, rest⟩
    ↔ cs = text ++ rest ∧ (∀ c ∈ text, test c = true) ∧ Stops test rest
  := by
  constructor
  · intro h
    rw [run, Lexeme.mk.injEq] at h
    obtain ⟨rfl, -, rfl⟩ := h
    refine ⟨List.takeWhile_append_dropWhile.symm, fun c => List.mem_takeWhile_imp, ?_⟩
    intro c hc
    have hhead := List.head?_dropWhile_not test cs
    rw [Option.mem_def.1 hc] at hhead
    simpa using hhead
  · rintro ⟨rfl, htext, hrest⟩
    exact run_append htext hrest

theorem exists_run_eq (test : Char → Bool) (cs : List Char) :
  ∃ text rest, run test cs = ⟨text, text, rest⟩ ∧ cs = text ++ rest
    ∧ (∀ c ∈ text, test c = true) ∧ Stops test rest
  := ⟨_, _, rfl, run_eq_iff.1 rfl⟩

theorem someRun_eq_some_iff {test : Char → Bool} {cs : List Char} {found : Lexeme (List Char)} :
  someRun test cs = some found
    ↔ ∃ text rest, found = ⟨text, text, rest⟩ ∧ cs = text ++ rest ∧ text ≠ []
      ∧ (∀ c ∈ text, test c = true) ∧ Stops test rest
  := by
  constructor
  · intro h
    rw [someRun] at h
    split at h
    case isTrue => cases h
    case isFalse hne =>
      cases h
      obtain ⟨hcs, htext, hrest⟩ := run_eq_iff.1 (rfl : run test cs = ⟨_, _, _⟩)
      exact ⟨_, _, rfl, hcs, by simpa using hne, htext, hrest⟩
  · rintro ⟨text, rest, rfl, rfl, hne, htext, hrest⟩
    exact someRun_append hne htext hrest

/-! ### Names and operators -/

theorem isIdentifierChar_of_mem {name : List Char} (h : isIdentifier name = true) :
  ∀ c ∈ name, isIdentifierChar c = true
  := by
  cases name with
  | nil => exact List.forall_mem_nil _
  | cons c rest =>
    rw [isIdentifier, Bool.and_eq_true, List.all_eq_true] at h
    refine List.forall_mem_cons.2 ⟨?_, h.2⟩
    simp only [isIdentifierStart, Bool.or_eq_true] at h
    simp only [isIdentifierChar, Char.isAlphanum, Bool.or_eq_true]
    tauto

theorem exists_of_identifier {cs : List Char} {found : Lexeme (List Char)}
    (h : identifier cs = some found) :
  ∃ name rest, found = ⟨name, name, rest⟩ ∧ cs = name ++ rest ∧ isIdentifier name = true
    ∧ Stops isIdentifierChar rest
  := by
  cases cs with
  | nil => cases h
  | cons c cs =>
    simp only [identifier] at h
    split at h
    case isTrue hc =>
      obtain ⟨name, rest, hrun, rfl, hname, hrest⟩ := exists_run_eq isIdentifierChar cs
      rw [hrun] at h
      cases h
      refine ⟨c :: name, rest, rfl, rfl, ?_, hrest⟩
      rw [isIdentifier, hc, Bool.true_and, List.all_eq_true]
      exact hname
    case isFalse => cases h

/-- Whether some characters are the token of an operator where the text goes on with `next`: a
word, with an exclamation mark or without, or a run of signs. -/
inductive OperatorBefore : List Char → List Char → Prop where
  | word {word next : List Char} (hne : word ≠ []) (hword : ∀ c ∈ word, c.isAlpha = true)
      (hnext : Stops Char.isAlpha next) : OperatorBefore word next
  | negated {word next : List Char} (hne : word ≠ []) (hword : ∀ c ∈ word, c.isAlpha = true)
      (hnext : Stops Char.isAlpha next) : OperatorBefore ('!' :: word) next
  | signs {signs next : List Char} (hne : signs ≠ [])
      (hsigns : ∀ c ∈ signs, isOperatorSign c = true) (hnext : Stops isOperatorSign next)
      (hmark : signs = ['!'] → Stops Char.isAlpha next) : OperatorBefore signs next

theorem not_isAlpha_of_isOperatorSign {c : Char} (h : isOperatorSign c = true) :
  c.isAlpha = false
  := by
  obtain rfl | rfl | rfl | rfl | rfl | rfl | rfl | rfl | rfl := isOperatorSign_cases h <;> rfl

namespace OperatorBefore

variable {token next : List Char}

/-- What comes behind the token matters only by its beginning. -/
theorem congr (h : OperatorBefore token next) {other : List Char}
    (halpha : Stops Char.isAlpha next → Stops Char.isAlpha other)
    (hsign : Stops isOperatorSign next → Stops isOperatorSign other) :
  OperatorBefore token other
  := by
  cases h with
  | word hne hword hnext => exact .word hne hword (halpha hnext)
  | negated hne hword hnext => exact .negated hne hword (halpha hnext)
  | signs hne hsigns hnext hmark =>
    exact .signs hne hsigns (hsign hnext) fun h => halpha (hmark h)

end OperatorBefore

theorem wordOperator_eq_some_iff {cs : List Char} {found : Lexeme (List Char)} :
  wordOperator cs = some found
    ↔ ∃ word rest, word ≠ [] ∧ (∀ c ∈ word, c.isAlpha = true) ∧ Stops Char.isAlpha rest
      ∧ ((found = ⟨word, word, rest⟩ ∧ cs = word ++ rest)
        ∨ (found = ⟨'!' :: word, '!' :: word, rest⟩ ∧ cs = '!' :: word ++ rest))
  := by
  have hmark : Char.isAlpha '!' = false := rfl
  constructor
  · intro h
    cases cs with
    | nil => cases h
    | cons c cs =>
      rw [wordOperator] at h
      split at h
      case isTrue hc =>
        obtain ⟨found, hfound, rfl⟩ := Option.map_eq_some_iff.1 h
        obtain ⟨word, rest, rfl, rfl, hne, hword, hrest⟩ := someRun_eq_some_iff.1 hfound
        exact ⟨word, rest, hne, hword, hrest, .inr ⟨by rw [hc], by rw [hc]; rfl⟩⟩
      case isFalse =>
        obtain ⟨word, rest, rfl, hcs, hne, hword, hrest⟩ := someRun_eq_some_iff.1 h
        exact ⟨word, rest, hne, hword, hrest, .inl ⟨rfl, hcs⟩⟩
  · rintro ⟨word, rest, hne, hword, hrest, ⟨rfl, rfl⟩ | ⟨rfl, rfl⟩⟩
    · cases word with
      | nil => exact absurd rfl hne
      | cons c word =>
        have hc : c ≠ '!' := by
          rintro rfl
          rw [hword '!' (by simp)] at hmark
          cases hmark
        have hrun := someRun_append hne hword hrest
        rw [List.cons_append] at hrun ⊢
        simp only [wordOperator, hc, if_false, hrun]
    · have hrun := someRun_append hne hword hrest
      simp only [List.cons_append, wordOperator, if_true, hrun, Option.map_some]

/-- Signs are no word, not even behind an exclamation mark. -/
theorem wordOperator_signs {signs next : List Char} (hne : signs ≠ [])
    (hsigns : ∀ c ∈ signs, isOperatorSign c = true)
    (hmark : signs = ['!'] → Stops Char.isAlpha next) :
  wordOperator (signs ++ next) = none
  := by
  cases signs with
  | nil => exact absurd rfl hne
  | cons c signs =>
    rw [List.cons_append, wordOperator]
    split
    case isTrue hc =>
      rw [Option.map_eq_none_iff]
      apply someRun_eq_none
      cases signs with
      | nil => exact hmark (by rw [hc])
      | cons d signs =>
        rintro _ ⟨⟩
        exact not_isAlpha_of_isOperatorSign (hsigns d (by simp))
    case isFalse =>
      apply someRun_eq_none
      rintro _ ⟨⟩
      exact not_isAlpha_of_isOperatorSign (hsigns c (by simp))

/-- What is found in the place of an operator. -/
theorem operator_eq_some_iff {cs : List Char} {found : Lexeme (List Char)} :
  operator cs = some found
    ↔ ∃ token next, found = ⟨token, token, next⟩ ∧ cs = token ++ next ∧ OperatorBefore token next
  := by
  constructor
  · intro h
    rw [operator] at h
    split at h
    case h_1 found' hword =>
      cases h
      obtain ⟨word, rest, hne, halpha, hrest, ⟨rfl, rfl⟩ | ⟨rfl, rfl⟩⟩ :=
        wordOperator_eq_some_iff.1 hword
      · exact ⟨word, rest, rfl, rfl, .word hne halpha hrest⟩
      · exact ⟨'!' :: word, rest, rfl, rfl, .negated hne halpha hrest⟩
    case h_2 hword =>
      obtain ⟨signs, rest, rfl, rfl, hne, hsigns, hrest⟩ := someRun_eq_some_iff.1 h
      refine ⟨signs, rest, rfl, rfl, .signs hne hsigns hrest ?_⟩
      rintro rfl c hc
      by_contra halpha
      cases rest with
      | nil => cases hc
      | cons d rest =>
        cases hc
        have hrun : someRun Char.isAlpha (c :: rest) = some (run Char.isAlpha (c :: rest)) := by
          rw [someRun, if_neg]
          simp [halpha]
        simp only [List.cons_append, List.nil_append, wordOperator, if_true, hrun,
          Option.map_some] at hword
        cases hword
  · rintro ⟨token, next, rfl, rfl, htoken⟩
    cases htoken with
    | word hne hword hnext =>
      have h := wordOperator_eq_some_iff.2 ⟨_, _, hne, hword, hnext, .inl ⟨rfl, rfl⟩⟩
      simp only [operator, h]
    | negated hne hword hnext =>
      have h := wordOperator_eq_some_iff.2 ⟨_, _, hne, hword, hnext, .inr ⟨rfl, rfl⟩⟩
      simp only [operator, h]
    | signs hne hsigns hnext hmark =>
      rw [operator, wordOperator_signs hne hsigns hmark]
      exact someRun_append hne hsigns hnext

/-! ### Quoted strings and regexes -/

/-- Whether a character opens a quoted string. -/
def IsQuote (c : Char) : Prop :=
  c = '"' ∨ c = '\x27'

theorem IsQuote.ne_backslash {quote : Char} (h : IsQuote quote) :
  quote ≠ '\\'
  := by
  obtain rfl | rfl := h <;> decide

theorem exists_of_quotedBody {quote closing : Char} {cs body rest : List Char}
    (h : quotedBody quote cs = (body, closing :: rest)) :
  closing = quote ∧ cs = body ++ quote :: rest ∧ LiteralBody (· = quote) body
  := by
  fun_induction quotedBody quote cs generalizing body with
  | case1 => cases h
  | case2 => cases h
  | case3 d cs body' rest' hread ih =>
    cases h
    obtain ⟨hclosing, hcs, hbody⟩ := ih hread
    exact ⟨hclosing, by rw [hcs]; rfl, .escaped d hbody⟩
  | case4 =>
    cases h
    exact ⟨rfl, rfl, .nil⟩
  | case5 c cs hc hne body' rest' hread ih =>
    cases h
    obtain ⟨hclosing, hcs, hbody⟩ := ih hread
    exact ⟨hclosing, by rw [hcs]; rfl, .plain hc (by simpa using hne) hbody⟩

/-- What is found as a quoted string. -/
theorem quoted_eq_some_iff {cs : List Char} {found : Lexeme (List Char)} :
  quoted cs = some found
    ↔ ∃ quote raw rest, IsQuote quote ∧ LiteralBody (· = quote) raw
      ∧ found = ⟨raw, quote :: raw ++ [quote], rest⟩ ∧ cs = quote :: raw ++ quote :: rest
  := by
  constructor
  · intro h
    cases cs with
    | nil => cases h
    | cons quote cs =>
      rw [quoted] at h
      split at h
      case isTrue hquote =>
        split at h
        case h_1 body closing rest hbody =>
          cases h
          obtain ⟨rfl, hcs, hbody⟩ := exists_of_quotedBody hbody
          exact ⟨closing, body, rest, hquote, hbody, rfl, by rw [hcs]; rfl⟩
        case h_2 => cases h
      case isFalse => cases h
  · rintro ⟨quote, raw, rest, hquote, hraw, rfl, rfl⟩
    have hbody := quotedBody_append hquote.ne_backslash hraw rest
    rw [IsQuote] at hquote
    simp only [List.cons_append, quoted, hquote, if_true, hbody]

theorem exists_of_regexBody {cs body rest : List Char} (h : regexBody cs = (body, '/' :: rest)) :
  cs = body ++ '/' :: rest ∧ LiteralBody endsRegex body
  := by
  refine ⟨?_, literalBody_of_regexBody h⟩
  fun_induction regexBody cs generalizing body with
  | case1 => cases h
  | case2 => cases h
  | case3 d cs body' rest' hread ih =>
    cases h
    rw [ih hread]
    rfl
  | case4 =>
    cases h
    rfl
  | case5 c cs hc hends body' rest' hread ih =>
    cases h
    rw [ih hread]
    rfl

/-- What is found as a regex. -/
theorem exists_of_regex {cs : List Char} {found : Lexeme RegexLiteral} (h : regex cs = some found) :
  ∃ body flags rest, LiteralBody endsRegex body ∧ (∀ c ∈ flags, c.isAlpha = true)
    ∧ found = ⟨⟨body, flags⟩, RegexLiteral.text ⟨body, flags⟩, rest⟩
    ∧ cs = '/' :: body ++ '/' :: (flags ++ rest)
  := by
  rw [regex.eq_def] at h
  split at h
  case h_1 cs =>
    split at h
    case h_1 body rest hread =>
      obtain ⟨rfl, hbody⟩ := exists_of_regexBody hread
      obtain ⟨flags, rest', hrun, rfl, hflags, -⟩ := exists_run_eq Char.isAlpha rest
      simp only [hrun] at h
      cases h
      exact ⟨body, flags, rest', hbody, hflags, rfl, rfl⟩
    case h_2 => cases h
  case h_2 => cases h

/-! ### Words -/

/-- Whether some characters are a word. -/
structure IsWord (text : List Char) : Prop where
  ne_nil : text ≠ []
  all_isBare : ∀ c ∈ text, isBare c = true

/-- A lexeme in front of a longer text. -/
def Lexeme.extend {α : Type} (found : Lexeme α) (rest : List Char) : Lexeme α where
  value := found.value
  text := found.text
  rest := found.rest ++ rest

theorem run_append_of_stops {test : Char → Bool} {rest : List Char} (hrest : Stops test rest)
    (text : List Char) :
  run test (text ++ rest) = (run test text).extend rest
  := by
  obtain ⟨first, others, hrun, rfl, hfirst, hothers⟩ := exists_run_eq test text
  rw [hrun, List.append_assoc, run_eq_iff.2 ⟨rfl, hfirst, hothers.append hrest⟩]
  rfl

theorem someRun_append_of_stops {test : Char → Bool} {rest : List Char} (hrest : Stops test rest)
    (text : List Char) :
  someRun test (text ++ rest) = (someRun test text).map (·.extend rest)
  := by
  have hrun := run_append_of_stops hrest text
  have htake := congrArg Lexeme.value hrun
  simp only [run, Lexeme.extend] at htake
  rw [someRun, someRun, htake, hrun]
  split <;> rfl

section Words

variable {text rest : List Char}

theorem endsWord_append (hrest : endsWord rest = true) (text : List Char) :
  endsWord (text ++ rest) = endsWord text
  := by
  cases text with
  | nil => exact hrest
  | cons c text => rfl

theorem stops_isDigit (hrest : endsWord rest = true) :
  Stops Char.isDigit rest
  := (stops_isBare_iff.2 hrest).mono fun _ => isBare_of_isDigit

theorem fraction_append_of_endsWord (hrest : endsWord rest = true) (text : List Char) :
  fraction (text ++ rest) = (fraction text).extend rest
  := by
  cases text with
  | nil => exact fraction_append (List.forall_mem_nil _) hrest
  | cons c text =>
    rw [List.cons_append]
    by_cases hc : c = '.'
    · subst hc
      simp only [fraction, someRun_append_of_stops (stops_isDigit hrest)]
      cases someRun Char.isDigit text <;> rfl
    · rw [fraction.eq_2 _ (by simpa using hc), fraction.eq_2 _ (by simpa using hc)]
      rfl

/-- Whether a text begins with a number is settled before a word ends. -/
theorem number_append_of_endsWord (hrest : endsWord rest = true) (text : List Char) :
  number (text ++ rest) = (number text).map (·.extend rest)
  := by
  have hstops := stops_isBare_iff.2 hrest
  cases text with
  | nil =>
    apply number_eq_none
    intro c hc
    refine ⟨?_, stops_isDigit hrest c hc⟩
    rintro rfl
    cases hstops '-' hc
  | cons c text =>
    have hsign : (c :: text ++ rest).head? = (c :: text).head? := rfl
    have hdrop : (c :: text ++ rest).drop 1 = (c :: text).drop 1 ++ rest := rfl
    simp only [number, hsign, hdrop]
    rw [← apply_ite (· ++ rest), someRun_append_of_stops (stops_isDigit hrest)]
    cases someRun Char.isDigit _ with
    | none => rfl
    | some whole =>
      simp only [Option.map_some, Lexeme.extend, fraction_append_of_endsWord hrest,
        endsWord_append hrest]
      split <;> rfl

theorem fraction_text (cs : List Char) :
  cs = (fraction cs).text ++ (fraction cs).rest ∧ ∀ c ∈ (fraction cs).text, isBare c = true
  := by
  rw [fraction.eq_def]
  split
  case h_1 cs =>
    split
    case h_1 digits hdigits =>
      obtain ⟨whole, rest, rfl, rfl, -, hwhole, -⟩ := someRun_eq_some_iff.1 hdigits
      refine ⟨rfl, List.forall_mem_cons.2 ⟨rfl, ?_⟩⟩
      intro c hc
      exact isBare_of_isDigit (hwhole c hc)
    case h_2 => exact ⟨rfl, List.forall_mem_nil _⟩
  case h_2 => exact ⟨rfl, List.forall_mem_nil _⟩

/-- What is found as a number is a word. -/
theorem exists_of_number {cs : List Char} {found : Lexeme Scalar} (h : number cs = some found) :
  cs = found.text ++ found.rest ∧ IsWord found.text ∧ endsWord found.rest = true
  := by
  simp only [number] at h
  split at h
  case h_1 => cases h
  case h_2 whole hwhole =>
    split at h
    case isFalse => cases h
    case isTrue hends =>
      cases h
      obtain ⟨digits, rest, rfl, hcs, hne, hdigits, -⟩ := someRun_eq_some_iff.1 hwhole
      obtain ⟨hrest, hpart⟩ := fraction_text rest
      have hword : ∀ c ∈ digits ++ (fraction rest).text, isBare c = true := by
        rw [List.forall_mem_append]
        exact ⟨fun c hc => isBare_of_isDigit (hdigits c hc), hpart⟩
      by_cases hsign : cs.head? = some '-'
      · obtain ⟨cs, rfl⟩ := List.head?_eq_some_iff.1 hsign
        simp only [List.head?_cons, if_true, List.drop_one, List.tail_cons] at hcs
        simp only [List.head?_cons, if_true, List.cons_append, List.nil_append, List.append_assoc]
        refine ⟨by rw [hcs, ← hrest], ⟨List.cons_ne_nil _ _, ?_⟩, hends⟩
        exact List.forall_mem_cons.2 ⟨rfl, hword⟩
      · simp only [hsign, if_false] at hcs
        simp only [hsign, if_false, List.nil_append, List.append_assoc]
        refine ⟨by rw [hcs, ← hrest], ⟨?_, hword⟩, hends⟩
        exact List.append_ne_nil_of_left_ne_nil hne _

/-- What is found as a truth value. -/
theorem boolean_eq_some_iff {cs : List Char} {found : Lexeme Scalar} :
  boolean cs = some found
    ↔ ∃ b rest, found = ⟨.boolean b, (Value.bool b).printScalar, rest⟩
      ∧ cs = (Value.bool b).printScalar ++ rest ∧ endsWord rest = true
  := by
  constructor
  · intro h
    rw [boolean.eq_def] at h
    split at h
    case h_1 rest =>
      split at h
      case isTrue hends =>
        cases h
        exact ⟨true, rest, rfl, rfl, hends⟩
      case isFalse => cases h
    case h_2 rest =>
      split at h
      case isTrue hends =>
        cases h
        exact ⟨false, rest, rfl, rfl, hends⟩
      case isFalse => cases h
    case h_3 => cases h
  · rintro ⟨_ | _, rest, rfl, rfl, hends⟩
    · exact if_pos hends
    · exact if_pos hends

theorem isWord_bool (b : Bool) :
  IsWord (Value.bool b).printScalar
  := by
  cases b with
  | false => exact ⟨List.cons_ne_nil _ _, List.all_eq_true.1 rfl⟩
  | true => exact ⟨List.cons_ne_nil _ _, List.all_eq_true.1 rfl⟩

/-- The word at the beginning of a text is determined by it. -/
theorem IsWord.unique {other behind : List Char} (htext : IsWord text)
    (hrest : endsWord rest = true) (hother : IsWord other) (hbehind : endsWord behind = true)
    (h : text ++ rest = other ++ behind) :
  text = other ∧ rest = behind
  := by
  have hrun := run_append htext.all_isBare (stops_isBare_iff.2 hrest)
  rw [h, run_append hother.all_isBare (stops_isBare_iff.2 hbehind), Lexeme.mk.injEq] at hrun
  exact ⟨hrun.1.symm, hrun.2.2.symm⟩

/-- Whether a word is a truth value is settled by the word alone. -/
theorem boolean_append_of_isWord (htext : IsWord text) (hrest : endsWord rest = true) :
  boolean (text ++ rest) = (boolean text).map (·.extend rest)
  := by
  apply Option.ext
  intro found
  rw [boolean_eq_some_iff, Option.map_eq_some_iff]
  constructor
  · rintro ⟨b, behind, rfl, hcs, hbehind⟩
    obtain ⟨rfl, rfl⟩ := htext.unique hrest (isWord_bool b) hbehind hcs
    refine ⟨_, boolean_eq_some_iff.2 ⟨b, [], rfl, (List.append_nil _).symm, rfl⟩, rfl⟩
  · rintro ⟨found, hfound, rfl⟩
    obtain ⟨b, behind, rfl, hcs, hbehind⟩ := boolean_eq_some_iff.1 hfound
    rw [← List.append_nil text] at hcs
    obtain ⟨rfl, rfl⟩ := htext.unique rfl (isWord_bool b) hbehind hcs
    exact ⟨b, rest, rfl, rfl, hrest⟩

end Words

/-! ### What a word is -/

/-- What a word is: a number, a truth value, or a bare word. -/
def wordScalar (text : List Char) : Scalar :=
  match number text with
  | some found => found.value
  | none =>
    match boolean text with
    | some found => found.value
    | none => .bare text

/-- A word at the beginning of a text is found as what it is by itself. -/
theorem IsWord.cases {text rest : List Char} (htext : IsWord text) (hrest : endsWord rest = true) :
  number (text ++ rest) = some ⟨wordScalar text, text, rest⟩
    ∨ number (text ++ rest) = none
      ∧ (boolean (text ++ rest) = some ⟨wordScalar text, text, rest⟩
        ∨ boolean (text ++ rest) = none ∧ wordScalar text = .bare text)
  := by
  rw [number_append_of_endsWord hrest, boolean_append_of_isWord htext hrest, wordScalar]
  cases hnumber : number text with
  | some found =>
    obtain ⟨hcs, hword, hends⟩ := exists_of_number hnumber
    obtain ⟨htext, hnil⟩ := htext.unique rfl hword hends ((List.append_nil _).trans hcs)
    left
    rw [Option.map_some, Lexeme.extend, ← htext, ← hnil]
    rfl
  | none =>
    right
    refine ⟨rfl, ?_⟩
    cases hboolean : boolean text with
    | some found =>
      obtain ⟨b, behind, rfl, hcs, hends⟩ := boolean_eq_some_iff.1 hboolean
      obtain ⟨htext, hnil⟩ := htext.unique rfl (isWord_bool b) hends ((List.append_nil _).trans hcs)
      left
      rw [Option.map_some, Lexeme.extend, ← htext, ← hnil]
      rfl
    | none => exact .inr ⟨rfl, rfl⟩

end Sift.Syntax
