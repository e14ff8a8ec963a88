import Sift.Syntax.Delimiter
import Sift.Proofs.Syntax.Literal

/-!
# Delimiters of printed values

A text is `Transparent` if it closes every literal and every parenthesis that it opens, so that
`delimiterFault` finds behind it what it would find without it. Transparent texts can be put
together (`Transparent.append`, `Transparent.intercalate`, `Transparent.parens`), and the delimiters
of such a text are in order (`Transparent.checkDelimiters`).
-/

namespace Sift.Syntax

/-- Whether a text leaves the delimiters around it as they are. -/
def Transparent (text : List Char) : Prop :=
  ∀ opened place rest, ∃ behind,
    delimiterFault opened place (text ++ rest) = delimiterFault opened behind rest

/-- Whether a character is no delimiter. -/
def isPlain (c : Char) : Bool :=
  !opensLiteral c && c ≠ '(' && c ≠ ')'

theorem closeLiteral_append {quote : Char} {ends : Char → Bool} {body : List Char}
    (hbody : LiteralBody ends body) (hquote : quote ≠ '\\')
    (hends : ∀ c, ends c = false → c ≠ quote ∧ ¬(quote = '/' ∧ c = '\n')) (place : Nat)
    (rest : List Char) :
  ∃ behind, closeLiteral quote place (body ++ quote :: rest) = some (behind, rest)
  := by
  induction hbody generalizing place with
  | nil =>
    use place + quote.utf8Size
    rw [List.nil_append, closeLiteral.eq_def]
    simp only [hquote, if_false, if_true]
  | plain hc hplain _ ih =>
    obtain ⟨hne, hline⟩ := hends _ hplain
    obtain ⟨behind, h⟩ := ih (place + Char.utf8Size _)
    use behind
    rw [List.cons_append, closeLiteral.eq_def]
    simp only [hc, hne, hline, if_false]
    exact h
  | escaped c _ ih =>
    obtain ⟨behind, h⟩ := ih (place + Char.utf8Size '\\' + c.utf8Size)
    use behind
    rw [List.cons_append, List.cons_append, closeLiteral.eq_def]
    simp only [if_true]
    exact h

namespace Transparent

theorem nil :
  Transparent []
  := by
  intro opened place rest
  exact ⟨place, rfl⟩

theorem append {text text' : List Char} (h : Transparent text) (h' : Transparent text') :
  Transparent (text ++ text')
  := by
  intro opened place rest
  obtain ⟨between, hfirst⟩ := h opened place (text' ++ rest)
  obtain ⟨behind, hsecond⟩ := h' opened between rest
  use behind
  rw [List.append_assoc, hfirst, hsecond]

theorem of_isPlain {text : List Char} (h : ∀ c ∈ text, isPlain c = true) :
  Transparent text
  := by
  induction text with
  | nil => exact nil
  | cons c text ih =>
    intro opened place rest
    obtain ⟨behind, hrest⟩ := ih (fun d hd => h d (by simp [hd])) opened (place + c.utf8Size) rest
    have hc := h c (by simp)
    simp only [isPlain, Bool.and_eq_true, Bool.not_eq_true', decide_eq_true_eq] at hc
    use behind
    rw [List.cons_append, delimiterFault.eq_def]
    simp only [hc.1.1, Bool.false_eq_true, if_false, hc.1.2, hc.2, hrest]

theorem parens {text : List Char} (h : Transparent text) :
  Transparent ('(' :: text ++ [')'])
  := by
  intro opened place rest
  obtain ⟨between, hinner⟩ := h (place :: opened) (place + Char.utf8Size '(') (')' :: rest)
  use between + Char.utf8Size ')'
  have hshape : '(' :: text ++ [')'] ++ rest = '(' :: (text ++ ')' :: rest) := by simp
  have hopen : opensLiteral '(' = false := rfl
  have hclose : opensLiteral ')' = false := rfl
  have hne : ')' ≠ '(' := by decide
  rw [hshape, delimiterFault.eq_def]
  simp only [hopen, Bool.false_eq_true, if_false, if_true, hinner]
  rw [delimiterFault.eq_def]
  simp only [hclose, Bool.false_eq_true, if_false, if_true, hne]

/-- A literal between two signs of its kind. -/
theorem literal {quote : Char} (hquote : opensLiteral quote = true) {ends : Char → Bool}
    {body : List Char} (hbody : LiteralBody ends body)
    (hends : ∀ c, ends c = false → c ≠ quote ∧ ¬(quote = '/' ∧ c = '\n')) :
  Transparent (quote :: body ++ [quote])
  := by
  intro opened place rest
  have hne : quote ≠ '\\' := by
    rintro rfl
    cases hquote
  obtain ⟨behind, hclose⟩ := closeLiteral_append hbody hne hends (place + quote.utf8Size) rest
  use behind
  have hshape : quote :: body ++ [quote] ++ rest = quote :: (body ++ quote :: rest) := by simp
  rw [hshape, delimiterFault.eq_def]
  simp only [hquote, if_true]
  split
  case h_1 behind' rest' h =>
    rw [hclose] at h
    cases h
    rfl
  case h_2 h =>
    rw [hclose] at h
    cases h

theorem intercalate {sep : List Char} (hsep : Transparent sep) {parts : List (List Char)}
    (hparts : ∀ part ∈ parts, Transparent part) :
  Transparent (sep.intercalate parts)
  := by
  cases parts with
  | nil => exact nil
  | cons first others =>
    rw [intercalate_cons]
    apply append (hparts first (by simp))
    replace hparts : ∀ part ∈ others, Transparent part := fun part h => hparts part (by simp [h])
    clear first
    induction others with
    | nil => exact nil
    | cons first others ih =>
      rw [List.flatMap_cons]
      apply append (append hsep (hparts first (by simp)))
      exact ih fun part h => hparts part (by simp [h])

/-- The delimiters of a text that leaves those around it as they are are in order. -/
theorem checkDelimiters {text : List Char} (h : Transparent text) :
  checkDelimiters text = .ok ()
  := by
  obtain ⟨behind, hfault⟩ := h [] 0 []
  rw [List.append_nil, delimiterFault.eq_1] at hfault
  rw [Syntax.checkDelimiters, hfault]
  rfl

end Transparent

/-! ### Values -/

theorem isPlain_of_isAlphanum {c : Char} (h : c.isAlphanum = true) :
  isPlain c = true
  := by
  by_contra hc
  have hcases : c = '"' ∨ c = '\x27' ∨ c = '/' ∨ c = '(' ∨ c = ')' := by
    simp only [isPlain, opensLiteral, List.contains_cons, List.contains_nil] at hc
    simp at hc
    tauto
  obtain rfl | rfl | rfl | rfl | rfl := hcases <;> cases h

/-- An identifier has no delimiters. -/
theorem transparent_identifier {name : List Char} (h : isIdentifier name = true) :
  Transparent name
  := by
  apply Transparent.of_isPlain
  cases name with
  | nil => simp
  | cons c rest =>
    simp only [isIdentifier, isIdentifierStart, isIdentifierChar, Bool.and_eq_true, Bool.or_eq_true,
      decide_eq_true_eq, List.all_eq_true] at h
    rw [List.forall_mem_cons]
    constructor
    · obtain hc | rfl := h.1
      · exact isPlain_of_isAlphanum (by simp [Char.isAlphanum, hc])
      · rfl
    · intro d hd
      obtain (hd | rfl) | rfl := h.2 d hd
      · exact isPlain_of_isAlphanum hd
      · rfl
      · rfl

theorem isPlain_of_isDigit {c : Char} (h : c.isDigit = true) :
  isPlain c = true
  := isPlain_of_isAlphanum (by simp [Char.isAlphanum, h])

theorem transparent_printScalar {v : Value} (hv : v.IsScalar) :
  Transparent v.printScalar
  := by
  cases v with
  | string s =>
    apply Transparent.literal rfl (literalBody_escape s.toList)
    intro c hc
    simpa using hc
  | number x =>
    obtain ⟨negative, whole, fraction, htext, -, hdigits, -⟩ := Number.exists_text_eq hv
    rw [List.forall_mem_append] at hdigits
    rw [Value.printScalar, htext]
    apply Transparent.append
    · apply Transparent.append
      · apply Transparent.of_isPlain
        cases negative <;> exact List.all_eq_true.1 rfl
      · apply Transparent.of_isPlain
        intro c hc
        exact isPlain_of_isDigit (hdigits.1 c hc)
    · apply Transparent.of_isPlain
      cases fraction with
      | nil => simp [Number.pointed]
      | cons c fraction =>
        rw [Number.pointed, List.forall_mem_cons]
        refine ⟨rfl, ?_⟩
        intro d hd
        exact isPlain_of_isDigit (hdigits.2 d hd)
  | bool b =>
    apply Transparent.of_isPlain
    cases b <;> exact List.all_eq_true.1 rfl
  | list => cases hv
  | regex => cases hv

/-- An infinite number is written without delimiters. -/
theorem transparent_infinite {x : Number} (hx : x.isFinite = false) :
  Transparent (Value.number x).chars
  := by
  apply Transparent.of_isPlain
  change ∀ c ∈ x.text.toList, isPlain c = true
  obtain htext | htext := text_of_infinite hx <;> rw [htext] <;> exact List.all_eq_true.1 rfl

theorem transparent_list {items : List Value} (hitems : ∀ item ∈ items, Transparent item.chars) :
  Transparent (Value.list items).chars
  := by
  have hsign (c : Char) (hc : isPlain c = true) : Transparent [c] := by
    apply Transparent.of_isPlain
    simpa using hc
  rw [Value.chars, Value.charsOfItems_eq_map, List.cons_append]
  apply Transparent.append (hsign '[' rfl)
  apply Transparent.append _ (hsign ']' rfl)
  apply Transparent.intercalate (Transparent.of_isPlain (List.all_eq_true.1 rfl))
  rw [List.forall_mem_map]
  exact hitems

theorem transparent_regex {pattern : String} (hbody : LiteralBody endsRegex pattern.toList)
    (ignoreCase : Bool) :
  Transparent (Value.regex pattern ignoreCase).chars
  := by
  have htext : (Value.regex pattern ignoreCase).chars
      = '/' :: pattern.toList ++ ['/'] ++ if ignoreCase then ['i'] else [] := by
    simp [Value.chars, Value.printScalar]
  rw [htext]
  apply Transparent.append
  · apply Transparent.literal rfl hbody
    intro c hc
    simp only [endsRegex, isLineEnd, Bool.or_eq_false_iff, decide_eq_false_iff_not] at hc
    exact ⟨hc.1, fun h => hc.2.1 h.2⟩
  · apply Transparent.of_isPlain
    cases ignoreCase <;> exact List.all_eq_true.1 rfl

theorem transparent_atom {v : Value} (hv : v.IsAtom) :
  Transparent v.chars
  := by
  obtain hv | ⟨x, rfl, hx⟩ := hv.isScalar_or_infinite
  · rw [hv.chars_eq]
    exact transparent_printScalar hv
  · exact transparent_infinite hx

/-- The text of a value closes what it opens. -/
theorem transparent_chars {v : Value} (hv : v.Proper) :
  Transparent v.chars
  := by
  obtain hv | ⟨items, rfl, hitems⟩ | ⟨pattern, ignoreCase, query, rfl, hbody, -⟩ := hv.cases
  · exact transparent_atom hv
  · exact transparent_list fun item hitem => transparent_atom (hitems item hitem)
  · exact transparent_regex hbody ignoreCase

end Sift.Syntax
