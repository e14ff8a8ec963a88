import Sift.Proofs.Query.RoundTrip
import Sift.Proofs.Query.Truth

/-!
# Texts that are read literally

`Query.literally?` is the truth value of a text as it stands, from the phrase that it is: `|` is a
disjunction, `&` a conjunction, `!` a complement, and nothing is true. It makes no tree, so nothing
is spliced, unwrapped or flipped. The tree that a text is parsed to has that value
(`literally?_of_parse`).
-/

namespace Sift

/-! ### Atoms -/

/-- The rule that a text without an operator stands for. -/
def Schema.searchRule? (schema : Schema) (text : List Char) : Option Rule := do
  let field ← schema.shorthandField?
  return ⟨field.name, (schema.defaultOperatorFor field).getD .contains,
    some (.string (String.ofList text))⟩

namespace Syntax

/-- The rule that a comparison stands for. -/
def statedRule? (field operator : List Char) (value : Option Literal) : Option Rule := do
  let operator ← Operator.ofToken? (String.ofList operator)
  let value ← value.mapM fun literal => literal.toValue.toOption
  return ⟨String.ofList field, operator, value⟩

/-! ### Literal readings -/

section Readings

variable (schema : Schema) (positive : Rule → Bool) (names : String → Bool)

mutual

/-- The truth value of a phrase as it stands. A lone name that cannot be that of a saved query is
looked for in the default field. -/
def Phrase.holds? : Phrase → Option Bool
  | .anyOf operands => (allHold? operands).map fun values => values.any id
  | .allOf operands => (allHold? operands).map fun values => values.all id
  | .not operand => operand.holds?.map (!·)
  | .empty => some true
  | .group inner => inner.holds?
  | .comparison field operator _ value =>
    (statedRule? field operator value).map (Rule.holds positive)
  | .name text _ =>
    if isReferenceName text then some (names (String.ofList text))
    else (schema.searchRule? text).map (Rule.holds positive)

/-- The truth values of some phrases as they stand. -/
def allHold? : List Phrase → Option (List Bool)
  | [] => some []
  | phrase :: rest => do
    let value ← phrase.holds?
    let values ← allHold? rest
    return value :: values

end

/-- The truth value of a whole text as it stands. -/
def Sentence.holds? : Sentence → Option Bool
  | freeText raw _ => (schema.searchRule? (unescape raw)).map (Rule.holds positive)
  | phrase p => p.holds? schema positive names
  | blank => some true

end Readings

/-! ### Atoms are read as they stand -/

section Atoms

variable {schema : Schema}

theorem exists_searchRule_of_shorthand {text : List Char} {place : Nat} {q : Query}
    (h : shorthand schema text place = .ok q) :
  ∃ x, schema.searchRule? text = some x ∧ q = .ofRule x
  := by
  rw [shorthand] at h
  cases hfield : schema.shorthandField? with
  | none =>
    rw [hfield] at h
    cases h
  | some field =>
    rw [hfield] at h
    cases h
    refine ⟨_, ?_, rfl⟩
    rw [Schema.searchRule?, hfield]
    rfl

theorem exists_statedRule_of_comparisonRule {field operator : List Char} {operatorEnd : Nat}
    {value : Option Literal} {q : Query}
    (h : comparisonRule schema field operator operatorEnd value = .ok q) :
  ∃ x, statedRule? field operator value = some x ∧ q = .ofRule x
  := by
  rw [comparisonRule] at h
  rw [statedRule?]
  split at h
  case isTrue => cases h
  case isFalse =>
    split at h
    case h_1 => cases h
    case h_2 found hfound =>
      rw [hfound]
      cases value with
      | none =>
        simp only at h
        split at h
        case isTrue => cases h
        case isFalse =>
          cases h
          exact ⟨_, rfl, rfl⟩
      | some literal =>
        obtain ⟨v, hvalue, rfl⟩ := map_eq_ok_iff.mp h
        refine ⟨_, ?_, rfl⟩
        simp [hvalue, Except.toOption]

/-- A lone name is a mention, or else it is searched for. -/
theorem nameQuery_inv {whole text : List Char} {start : Nat} {q : Query}
    (h : nameQuery schema whole text start = .ok q) :
  (isReferenceName text = true ∧ q = .reference { name := String.ofList text })
    ∨ (isReferenceName text = false ∧ shorthand schema text start = .ok q)
  := by
  rw [nameQuery] at h
  split at h
  case isTrue => cases h
  case isFalse =>
    split at h
    case isTrue hname =>
      cases h
      exact .inl ⟨hname, rfl⟩
    case isFalse hname =>
      rw [Bool.not_eq_true] at hname
      split at h
      case isTrue => exact .inr ⟨hname, h⟩
      case isFalse => cases h

end Atoms

/-! ### Trees have the value of the phrase -/

section Trees

variable {schema : Schema} (positive : Rule → Bool) (names : String → Bool)

mutual

/-- The tree of a phrase has the value of the phrase as it stands. -/
theorem Phrase.holds?_of_toQuery (phrase : Phrase) {whole : List Char} {q : Query}
    (h : phrase.toQuery schema whole = .ok q) :
  phrase.holds? schema positive names = some (q.holds (Rule.holds positive) names)
  := by
  cases phrase with
  | anyOf operands =>
    rw [Phrase.toQuery] at h
    obtain ⟨qs, hqs, rfl⟩ := map_eq_ok_iff.mp h
    rw [Phrase.holds?, allHold?_of_allToQueries operands hqs, Query.holds_chain]
    rfl
  | allOf operands =>
    rw [Phrase.toQuery] at h
    obtain ⟨qs, hqs, rfl⟩ := map_eq_ok_iff.mp h
    rw [Phrase.holds?, allHold?_of_allToQueries operands hqs, Query.holds_chain]
    rfl
  | not operand =>
    rw [Phrase.toQuery] at h
    obtain ⟨inner, hinner, rfl⟩ := map_eq_ok_iff.mp h
    rw [Phrase.holds?, operand.holds?_of_toQuery hinner,
      Query.holds_negate (Query.complementary_holds positive)]
    rfl
  | empty =>
    cases h
    rfl
  | group inner =>
    rw [Phrase.toQuery] at h
    rw [Phrase.holds?]
    exact inner.holds?_of_toQuery h
  | comparison field operator operatorEnd value =>
    rw [Phrase.toQuery] at h
    obtain ⟨x, hx, rfl⟩ := exists_statedRule_of_comparisonRule h
    rw [Phrase.holds?, hx]
    rfl
  | name text start =>
    rw [Phrase.toQuery] at h
    rw [Phrase.holds?]
    obtain ⟨hname, rfl⟩ | ⟨hname, hsearch⟩ := nameQuery_inv h
    · rw [if_pos hname, Query.holds, Bool.false_xor]
    · obtain ⟨x, hx, rfl⟩ := exists_searchRule_of_shorthand hsearch
      rw [hname, if_neg Bool.false_ne_true, hx]
      rfl

/-- The trees of some phrases have the values of the phrases as they stand. -/
theorem allHold?_of_allToQueries (operands : List Phrase) {whole : List Char} {qs : List Query}
    (h : allToQueries schema whole operands = .ok qs) :
  allHold? schema positive names operands
    = some (qs.map (Query.holds (Rule.holds positive) names))
  := by
  cases operands with
  | nil =>
    cases h
    rfl
  | cons phrase rest =>
    rw [allToQueries] at h
    split at h
    case h_1 => cases h
    case h_2 q hphrase =>
      obtain ⟨others, hrest, rfl⟩ := map_eq_ok_iff.mp h
      rw [allHold?, phrase.holds?_of_toQuery hphrase, allHold?_of_allToQueries rest hrest]
      rfl

end

/-- The tree of a whole text has the value of the text as it stands. -/
theorem Sentence.holds?_of_toQuery {sentence : Sentence} {whole : List Char} {q : Query}
    (h : sentence.toQuery schema whole = .ok q) :
  sentence.holds? schema positive names = some (q.holds (Rule.holds positive) names)
  := by
  cases sentence with
  | freeText raw start =>
    obtain ⟨x, hx, rfl⟩ := exists_searchRule_of_shorthand h
    rw [Sentence.holds?, hx]
    rfl
  | phrase p => exact p.holds?_of_toQuery positive names h
  | blank =>
    cases h
    rfl

end Trees

end Syntax

namespace Query

/-- The truth value of a text as it stands: that of the phrase that it is, and a blank text is
true. -/
def literally? (schema : Schema) (positive : Rule → Bool) (names : String → Bool) (s : String) :
    Option Bool :=
  if (Text.trim s.toList).isEmpty then some true
  else
    match Syntax.sentence s.toList with
    | .ok sentence => sentence.holds? schema positive names
    | .error _ => none

/-- The tree that a text is parsed to has the value of the text as it stands, under every truth
assignment to rules with positive operators and to names. -/
theorem literally?_of_parse {schema : Schema} {s : String} {q : Query}
    (h : parse schema s = .ok q) (positive : Rule → Bool) (names : String → Bool) :
  literally? schema positive names s = some (q.holds (Rule.holds positive) names)
  := by
  rw [parse, parseChars] at h
  rw [literally?]
  split at h
  case isTrue hblank =>
    cases h
    rw [if_pos hblank]
    rfl
  case isFalse hblank =>
    rw [if_neg hblank]
    split at h
    case h_1 => cases h
    case h_2 =>
      rw [parseDelimited] at h
      split at h
      case h_1 => cases h
      case h_2 sentence hsentence =>
        rw [hsentence]
        exact sentence.holds?_of_toQuery positive names h

theorem literally?_of_parse_people :
  ∃ q, parse people "!(!(age > 1)) | (Old | name !like \"a%\") | !(() & age exists)" = .ok q
    ∧ ∀ positive names,
      literally? people positive names
        "!(!(age > 1)) | (Old | name !like \"a%\") | !(() & age exists)"
          = some (q.holds (Rule.holds positive) names)
  := by
  have hparse : parse people "!(!(age > 1)) | (Old | name !like \"a%\") | !(() & age exists)"
      = .ok (.join .or [.ofRule ⟨"age", .gt, some (.number (Number.ofNat 1))⟩,
        .reference { name := "Old" }, .ofRule ⟨"name", .notLike, some (.string "a%")⟩,
        .group .and true [.everything, .ofRule ⟨"age", .present, none⟩] {}]) := by
    decide +kernel
  exact ⟨_, hparse, literally?_of_parse hparse⟩

end Query

end Sift
