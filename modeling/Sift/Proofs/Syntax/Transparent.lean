import Sift.Proofs.Syntax.Soundness

/-!
# Spelled texts are closed

A text that spells a token, a literal, a phrase or a sentence closes every literal and every
parenthesis that it opens: it is `Transparent`, so the delimiters around it are found as they would
be found without it.
-/

namespace Sift.Syntax

open Reader

/-! ### Tokens are closed -/

theorem isPlain_of_isLayout {c : Char} (h : isLayout c = true) :
  isPlain c = true
  := by
  obtain rfl | rfl | rfl | rfl := isLayout_cases h <;> rfl

theorem isPlain_of_isOperatorSign {c : Char} (h : isOperatorSign c = true) :
  isPlain c = true
  := by
  obtain rfl | rfl | rfl | rfl | rfl | rfl | rfl | rfl | rfl := isOperatorSign_cases h <;> rfl

theorem isPlain_of_isAlpha {c : Char} (h : c.isAlpha = true) :
  isPlain c = true
  := isPlain_of_isAlphanum (by simp [Char.isAlphanum, h])

theorem isPlain_of_isBare {c : Char} (h : isBare c = true) :
  isPlain c = true
  := by
  by_contra hc
  have hcases : c = '"' ∨ c = '\x27' ∨ c = '/' ∨ c = '(' ∨ c = ')' := by
    simp only [isPlain, opensLiteral, List.contains_cons, List.contains_nil] at hc
    simp at hc
    tauto
  obtain rfl | rfl | rfl | rfl | rfl := hcases <;> cases h

theorem transparent_gap {gap : List Char} (h : IsGap gap) :
  Transparent gap
  := Transparent.of_isPlain fun c hc => isPlain_of_isLayout (h c hc)

theorem transparent_sign {c : Char} (h : isPlain c = true) :
  Transparent [c]
  := Transparent.of_isPlain (by simpa using h)

theorem OperatorBefore.transparent {token next : List Char} (h : OperatorBefore token next) :
  Transparent token
  := by
  apply Transparent.of_isPlain
  cases h with
  | word _ hword => exact fun c hc => isPlain_of_isAlpha (hword c hc)
  | negated _ hword =>
    rw [List.forall_mem_cons]
    exact ⟨rfl, fun c hc => isPlain_of_isAlpha (hword c hc)⟩
  | signs _ hsigns => exact fun c hc => isPlain_of_isOperatorSign (hsigns c hc)

/-! ### Literals are closed -/

theorem transparent_quoted {quote : Char} {raw : List Char} (hquote : IsQuote quote)
    (hraw : LiteralBody (· = quote) raw) :
  Transparent (quote :: raw ++ [quote])
  := by
  have hopens : opensLiteral quote = true := by
    obtain rfl | rfl := hquote <;> rfl
  apply Transparent.literal hopens hraw
  intro c hc
  rw [decide_eq_false_iff_not] at hc
  refine ⟨hc, ?_⟩
  rintro ⟨rfl, -⟩
  obtain h | h := hquote <;> cases h

theorem Scalar.Spelled.transparent {s : Scalar} {text : List Char} (h : s.Spelled text) :
  Transparent text
  := by
  cases h with
  | quoted hquote hraw => exact transparent_quoted hquote hraw
  | word htext => exact Transparent.of_isPlain fun c hc => isPlain_of_isBare (htext.all_isBare c hc)

theorem transparent_joined {α : Type} {sign : Char} {IsPart : Nat → List Char → α → Prop}
    (hsign : isPlain sign = true) (h : ∀ place text a, IsPart place text a → Transparent text)
    {place : Nat} {text : List Char} {as : List α} (hjoined : Joined sign IsPart place text as) :
  Transparent text
  := by
  induction hjoined with
  | only ha => exact h _ _ _ ha
  | cons ha hgap hgap' _ ih =>
    apply (h _ _ _ ha).append
    apply (transparent_gap hgap).append
    exact (transparent_sign hsign).append ((transparent_gap hgap').append ih)

theorem Literal.Spelled.transparent {literal : Literal} {text : List Char}
    (h : literal.Spelled text) :
  Transparent text
  := by
  cases h with
  | scalar h => exact h.transparent
  | @regex body flags hbody hflags =>
    have htext : '/' :: body ++ '/' :: flags = '/' :: body ++ ['/'] ++ flags := by simp
    rw [htext]
    apply Transparent.append
    · apply Transparent.literal rfl hbody
      intro c hc
      simp only [endsRegex, isLineEnd, Bool.or_eq_false_iff, decide_eq_false_iff_not] at hc
      exact ⟨hc.1, fun h => hc.2.1 h.2⟩
    · exact Transparent.of_isPlain fun c hc => isPlain_of_isAlpha (hflags c hc)
  | empty hgap =>
    exact (transparent_sign rfl).append ((transparent_gap hgap).append (transparent_sign rfl))
  | list hgap hgap' hitems =>
    have hjoined := transparent_joined rfl (fun _ text _ h => by
      cases h with
      | scalar h => exact h.transparent) hitems
    apply (transparent_sign (c := '[') rfl).append
    apply (transparent_gap hgap).append
    apply hjoined.append
    exact (transparent_gap hgap').append (transparent_sign rfl)

/-! ### Phrases are closed -/

/-- A text that spells a phrase closes what it opens. -/
theorem Spells.transparent {level : Level} {place : Nat} {text : List Char} {phrase : Phrase}
    (h : Spells level place text phrase) :
  Transparent text
  := by
  induction h with
  | name htext => exact transparent_identifier htext
  | comparison hfield hgap _ hop htail =>
    apply (transparent_identifier hfield).append
    apply (transparent_gap hgap).append
    apply hop.transparent.append
    cases htail with
    | none => exact Transparent.nil
    | some hgap h => exact (transparent_gap hgap).append h.transparent
  | empty hgap => exact (transparent_gap hgap).parens
  | group hgap hgap' _ ih =>
    have := ((transparent_gap hgap).append (ih.append (transparent_gap hgap'))).parens
    simpa using this
  | plain _ ih => exact ih
  | not hgap _ ih =>
    exact (transparent_sign (c := '!') rfl).append ((transparent_gap hgap).append ih)
  | only _ ih => exact ih
  | @joined condition _ _ _ _ _ _ _ _ hgap hgap' _ ih ihs =>
    have hsign : Transparent [condition.token] := transparent_sign (by cases condition <;> rfl)
    apply ih.append
    apply (transparent_gap hgap).append
    exact hsign.append ((transparent_gap hgap').append ihs)

theorem Sentence.Spelled.transparent {found : Sentence} {cs : List Char} (h : found.Spelled cs) :
  Transparent cs
  := by
  cases h with
  | phrase hgap hgap' h =>
    exact (transparent_gap hgap).append (h.transparent.append (transparent_gap hgap'))
  | freeText hgap hgap' hquote hraw =>
    apply (transparent_gap hgap).append
    exact (transparent_quoted hquote hraw).append (transparent_gap hgap')
  | blank hgap => exact transparent_gap hgap

end Sift.Syntax
