import Mathlib.Data.String.Basic
import Sift.Proofs.Query.Unchecked
import Sift.Proofs.Syntax.Place

/-!
# Where errors are

An error that says a place in a text says one that a reader can point at: the number of bytes before
one of the characters, or before the end (`parse_error_place`). The tree of a phrase fails only at a
place that the phrase knows (`Phrase.toQuery_error`), and a parenthesis is blamed only where one
stands.
-/

namespace Sift

/-! ### Places in strings -/

namespace Syntax

theorem byteCount_eq_utf8Len (cs : List Char) :
  byteCount cs = String.utf8Len cs
  := by
  induction cs with
  | nil => rfl
  | cons c cs ih => rw [byteCount_cons, ih, String.utf8Len_cons, Nat.add_comm]

theorem byteCount_toList (s : String) :
  byteCount s.toList = s.utf8ByteSize
  := by
  rw [byteCount_eq_utf8Len, ← String.utf8ByteSize_ofList, String.ofList_toList]

/-- The places in a string are the valid positions in it. -/
theorem isPlace_toList_iff {s : String} {place : Nat} :
  IsPlace s.toList place ↔ String.Pos.Raw.IsValid s ⟨place⟩
  := by
  rw [String.Pos.Raw.isValid_iff_exists_append]
  constructor
  · rintro ⟨front, rest, hs, rfl⟩
    use String.ofList front, String.ofList rest
    constructor
    · rw [← String.ofList_append, ← hs, String.ofList_toList]
    · rw [String.rawEndPos, ← byteCount_toList, String.toList_ofList]
  · rintro ⟨front, rest, rfl, hplace⟩
    use front.toList, rest.toList, String.toList_append
    rw [byteCount_toList]
    exact (congrArg String.Pos.Raw.byteIdx hplace).symm

/-- Where a parenthesis stands, it is read. -/
theorem ParenAt.get? {s : String} {place : Nat} (h : ParenAt s.toList place) :
  String.Pos.Raw.get? s ⟨place⟩ = some '(' ∨ String.Pos.Raw.get? s ⟨place⟩ = some ')'
  := by
  obtain ⟨front, c, rest, hs, rfl, hc⟩ := h
  have hget := String.get?_of_valid front (c :: rest)
  rw [← hs, String.ofList_toList, ← byteCount_eq_utf8Len, List.head?_cons] at hget
  obtain rfl | rfl := hc
  · exact .inl hget
  · exact .inr hget

end Syntax

/-! ### Errors of trees -/

/-- Whether an error that says a place says one that meets a condition, and blames no
parenthesis. -/
def QueryError.IsAt (good : Nat → Prop) : QueryError → Prop
  | syntaxError place _ => good place
  | unmatchedParen _ => False
  | unknownField _ | unknownOperator .. | malformedValue _ | badPattern .. => True

theorem QueryError.IsAt.mono {good weaker : Nat → Prop} {e : QueryError} (h : e.IsAt good)
    (hweaker : ∀ place, good place → weaker place) :
  e.IsAt weaker
  := by
  cases e with
  | syntaxError place => exact hweaker place h
  | unmatchedParen => exact h
  | _ => trivial

namespace Syntax

variable {schema : Schema} {whole : List Char} {e : QueryError}

/-- No error of a value says a place. -/
theorem Literal.toValue_error {literal : Literal} (h : literal.toValue = .error e)
    (good : Nat → Prop) :
  e.IsAt good
  := by
  cases literal with
  | scalar => cases h
  | list items =>
    rw [toValue, map_eq_error_iff] at h
    obtain ⟨item, -, hitem⟩ := exists_of_mapM_eq_error h
    cases item with
    | scalar => cases hitem
    | malformed =>
      cases hitem
      trivial
  | regex literal =>
    rw [toValue, RegexLiteral.toValue] at h
    split at h
    case isTrue =>
      simp only at h
      split at h
      case h_1 => cases h
      case h_2 =>
        cases h
        trivial
    case isFalse =>
      cases h
      trivial

theorem shorthand_error {literal : List Char} {place : Nat}
    (h : shorthand schema literal place = .error e) :
  e.IsAt (· = place)
  := by
  rw [shorthand] at h
  split at h
  case h_1 =>
    cases h
    rfl
  case h_2 => cases h

theorem comparisonRule_error {field op : List Char} {operatorEnd : Nat} {value : Option Literal}
    (h : comparisonRule schema field op operatorEnd value = .error e) :
  e.IsAt (· = operatorEnd)
  := by
  rw [comparisonRule] at h
  split at h
  case isTrue =>
    cases h
    trivial
  case isFalse =>
    split at h
    case h_1 =>
      cases h
      trivial
    case h_2 =>
      split at h
      case h_1 literal =>
        rw [map_eq_error_iff] at h
        exact literal.toValue_error h _
      case h_2 =>
        split at h
        case isTrue =>
          cases h
          rfl
        case isFalse => cases h

theorem nameQuery_error {text : List Char} {start : Nat}
    (h : nameQuery schema whole text start = .error e) :
  e.IsAt fun place => place = start ∨ place = start + byteCount text
  := by
  rw [nameQuery] at h
  split_ifs at h
  · cases h
    exact .inr rfl
  · exact (shorthand_error h).mono fun _ => .inl
  · cases h
    exact .inl rfl

mutual

/-- The tree of a phrase fails only at a place that the phrase knows. -/
theorem Phrase.toQuery_error (phrase : Phrase) (h : phrase.toQuery schema whole = .error e) :
  e.IsAt (· ∈ phrase.places)
  := by
  cases phrase with
  | anyOf operands =>
    rw [Phrase.toQuery, map_eq_error_iff] at h
    exact allToQueries_error operands h
  | allOf operands =>
    rw [Phrase.toQuery, map_eq_error_iff] at h
    exact allToQueries_error operands h
  | not operand =>
    rw [Phrase.toQuery, map_eq_error_iff] at h
    exact operand.toQuery_error h
  | empty => cases h
  | group inner =>
    rw [Phrase.toQuery] at h
    exact inner.toQuery_error h
  | comparison field operator operatorEnd value =>
    rw [Phrase.toQuery] at h
    apply (comparisonRule_error h).mono
    rintro _ rfl
    exact List.mem_singleton_self _
  | name text start =>
    rw [Phrase.toQuery] at h
    apply (nameQuery_error h).mono
    intro place hplace
    simpa [Phrase.places] using hplace

/-- The trees of some phrases fail only at places that the phrases know. -/
theorem allToQueries_error (phrases : List Phrase)
    (h : allToQueries schema whole phrases = .error e) :
  e.IsAt (· ∈ placesOfAll phrases)
  := by
  cases phrases with
  | nil => cases h
  | cons phrase rest =>
    rw [allToQueries] at h
    split at h
    case h_1 e' hphrase =>
      cases h
      apply (phrase.toQuery_error hphrase).mono
      intro place hplace
      rw [placesOfAll]
      exact List.mem_append_left _ hplace
    case h_2 =>
      rw [map_eq_error_iff] at h
      apply (allToQueries_error rest h).mono
      intro place hplace
      rw [placesOfAll]
      exact List.mem_append_right _ hplace

end

theorem Sentence.toQuery_error {found : Sentence} (h : found.toQuery schema whole = .error e) :
  e.IsAt (· ∈ found.places)
  := by
  cases found with
  | freeText raw start =>
    apply (shorthand_error h).mono
    rintro _ rfl
    exact List.mem_singleton_self _
  | phrase p => exact p.toQuery_error h
  | blank => cases h

end Syntax

/-! ### Errors of texts -/

namespace Query

open Syntax

variable {schema : Schema}

/-- A text whose delimiters are in order fails only at places in it. -/
theorem parseDelimited_error {cs : List Char} {e : QueryError}
    (h : parseDelimited schema cs = .error e) :
  e.IsAt (IsPlace cs)
  := by
  rw [parseDelimited] at h
  split at h
  case h_1 trace hsentence =>
    cases h
    exact isPlace_of_sentence_error hsentence
  case h_2 found hsentence =>
    apply (Sentence.toQuery_error h).mono
    exact isPlace_of_sentence hsentence

theorem parseChars_error {cs : List Char} {e : QueryError} (h : parseChars schema cs = .error e) :
  e.IsAt (IsPlace cs) ∨ ∃ place, e = .unmatchedParen place ∧ ParenAt cs place
  := by
  rw [parseChars] at h
  split_ifs at h
  split at h
  case h_1 fault hfault =>
    cases h
    cases fault with
    | openLiteral => exact .inl trivial
    | unmatched place => exact .inr ⟨place, rfl, parenAt_of_checkDelimiters hfault⟩
  case h_2 => exact .inl (parseDelimited_error h)

/-- The place that a syntax error or an unmatched parenthesis of a text is said to be at is one
between two characters of the text, or at one of its ends, and at that of an unmatched parenthesis
there is a parenthesis. -/
theorem parse_error_place (schema : Schema) (s : String) :
  (∀ place expected, parse schema s = .error (.syntaxError place expected) →
      place ≤ s.utf8ByteSize ∧ String.Pos.Raw.IsValid s ⟨place⟩)
    ∧ ∀ place, parse schema s = .error (.unmatchedParen place) →
      place ≤ s.utf8ByteSize ∧ String.Pos.Raw.IsValid s ⟨place⟩
      ∧ (String.Pos.Raw.get? s ⟨place⟩ = some '(' ∨ String.Pos.Raw.get? s ⟨place⟩ = some ')')
  := by
  have hvalid {place : Nat} (h : IsPlace s.toList place) :
      place ≤ s.utf8ByteSize ∧ String.Pos.Raw.IsValid s ⟨place⟩ := by
    have hplace := isPlace_toList_iff.mp h
    exact ⟨hplace.le_rawEndPos, hplace⟩
  constructor
  · intro place expected h
    obtain hplace | ⟨_, ⟨⟩, -⟩ := parseChars_error h
    exact hvalid hplace
  · intro place h
    obtain ⟨⟨⟩⟩ | ⟨_, ⟨⟩, hparen⟩ := parseChars_error h
    obtain ⟨hle, hplace⟩ := hvalid hparen.isPlace
    exact ⟨hle, hplace, hparen.get?⟩

/-- A field without an operator behind a letter of two bytes, and a parenthesis behind such letters
in and outside a quoted string. -/
theorem parse_error_place_people :
  (parse people "name = 'é' & age" = .error (.syntaxError 17 "operator")
      ∧ String.Pos.Raw.IsValid "name = 'é' & age" ⟨17⟩)
    ∧ parse people "é (name = '(é')) |" = .error (.unmatchedParen 17)
      ∧ String.Pos.Raw.get? "é (name = '(é')) |" ⟨17⟩ = some ')'
  := by
  have hmissing : parse people "name = 'é' & age" = .error (.syntaxError 17 "operator") := by
    decide +kernel
  have hparen : parse people "é (name = '(é')) |" = .error (.unmatchedParen 17) := by
    decide +kernel
  obtain ⟨-, hvalid⟩ := (parse_error_place people _).1 _ _ hmissing
  obtain ⟨-, -, hopening | hclosing⟩ := (parse_error_place people _).2 _ hparen
  · cases hopening
  · exact ⟨⟨hmissing, hvalid⟩, hparen, hclosing⟩

end Query

end Sift
