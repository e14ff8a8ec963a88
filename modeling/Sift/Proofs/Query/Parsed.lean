import Sift.Proofs.Query.Reading

/-!
# What parsing makes

The phrases that are read are `Phrase.Written`: their names are identifiers, their regexes end
where they should, and no chain is empty. The tree of such a phrase is canonical, and its rules and
names are ones that a text can state (`parsed_of_parse`).
-/

namespace Sift

namespace Syntax

open Reader

/-! ### Phrases -/

/-- Whether the parts of a phrase are what the language has. -/
inductive Phrase.Written : Phrase → Prop where
  | anyOf {operands : List Phrase} (hne : operands ≠ [])
    (hoperands : ∀ operand ∈ operands, Written operand) : Written (anyOf operands)
  | allOf {operands : List Phrase} (hne : operands ≠ [])
    (hoperands : ∀ operand ∈ operands, Written operand) : Written (allOf operands)
  | not {operand : Phrase} (hoperand : Written operand) : Written (not operand)
  | empty : Written empty
  | group {inner : Phrase} (hinner : Written inner) : Written (group inner)
  | comparison {field operator : List Char} {operatorEnd : Nat} {value : Option Literal}
    (hfield : isIdentifier field = true) (hvalue : ∀ literal ∈ value, literal.Closed) :
    Written (comparison field operator operatorEnd value)
  | name (text : List Char) (start : Nat) : Written (name text start)

theorem finds_readIdentifier :
  Finds readIdentifier fun name => isIdentifier name = true
  := by
  apply Finds.construct
  apply Finds.lexeme
  intro cs found h
  exact isIdentifier_of_identifier h

theorem finds_readComparison :
  Finds readComparison Phrase.Written
  := by
  apply Finds.construct
  apply Finds.bind finds_readIdentifier
  intro field hfield
  apply Finds.skip
  intro _
  apply Finds.skip
  intro operator
  apply Finds.skip
  intro operatorEnd
  apply Finds.skip
  intro _
  apply Finds.bind (Finds.optional finds_readLiteral)
  intro value hvalue
  apply Finds.pure
  exact .comparison hfield hvalue

theorem finds_readName :
  Finds readName Phrase.Written
  := by
  apply Finds.construct
  apply Finds.skip
  intro start
  apply Finds.skip
  intro text
  apply Finds.pure
  exact .name text start

theorem finds_readGroup {inner : Reader Phrase} (h : Finds inner Phrase.Written) :
  Finds (readGroup inner) Phrase.Written
  := by
  apply Finds.construct
  apply Finds.skip
  intro _
  apply Finds.skip
  intro _
  apply Finds.bind (Finds.optional h)
  intro found hfound
  apply Finds.skip
  intro _
  apply Finds.skip
  intro _
  apply Finds.pure
  cases found with
  | none => exact .empty
  | some phrase => exact .group (hfound phrase rfl)

theorem finds_readOperand {inner : Reader Phrase} (h : Finds inner Phrase.Written) :
  Finds (readOperand inner) Phrase.Written
  := by
  have hprimary : Finds (readPrimary inner) Phrase.Written := by
    apply Finds.construct
    apply Finds.or (finds_readGroup h)
    exact Finds.or finds_readComparison finds_readName
  apply Finds.construct
  apply Finds.skip
  intro negation
  apply Finds.skip
  intro _
  apply Finds.bind hprimary
  intro phrase hphrase
  apply Finds.pure
  split
  · exact .not hphrase
  · exact hphrase

/-- What is read as a phrase has the parts that the language has. -/
theorem finds_readPhrase (depth : Nat) :
  Finds (readPhrase depth) Phrase.Written
  := by
  have hanyOf {inner : Reader Phrase} (h : Finds inner Phrase.Written) :
      Finds (readAnyOf inner) Phrase.Written := by
    have hallOf : Finds (readAllOf inner) Phrase.Written := by
      apply Finds.construct
      apply Finds.map
      apply (Finds.separated (finds_readOperand h)).mono
      rintro operands ⟨hne, hoperands⟩
      exact .allOf hne hoperands
    apply Finds.construct
    apply Finds.map
    apply (Finds.separated hallOf).mono
    rintro operands ⟨hne, hoperands⟩
    exact .anyOf hne hoperands
  induction depth with
  | zero =>
    apply hanyOf
    constructor
    rintro _ _ _ _ _ ⟨⟩
  | succ depth ih => exact hanyOf ih

/-- Whether the phrase of a whole text, if it is one, has the parts that the language has. -/
def Sentence.Written : Sentence → Prop
  | phrase p => p.Written
  | freeText .. | blank => True

theorem finds_readFreeText :
  Finds readFreeText Sentence.Written
  := by
  apply Finds.construct
  apply Finds.skip
  intro start
  apply Finds.skip
  intro raw
  apply Finds.skip
  intro _
  apply Finds.skip
  intro _
  apply Finds.pure
  trivial

theorem finds_readQuery :
  Finds readQuery Sentence.Written
  := by
  have hphrase : Finds (fun cursor trace =>
      (Sentence.phrase <$> readPhrase cursor.rest.length) cursor trace) Sentence.Written := by
    constructor
    intro cursor trace found behind after h
    have hmap : Finds (Sentence.phrase <$> readPhrase cursor.rest.length) Sentence.Written := by
      apply Finds.map
      exact finds_readPhrase cursor.rest.length
    exact hmap.holds h
  apply Finds.construct
  apply Finds.skip
  intro _
  apply Finds.bind (Finds.optional (Finds.or finds_readFreeText hphrase))
  intro found hfound
  apply Finds.skip
  intro _
  apply Finds.skip
  intro _
  apply Finds.pure
  cases found with
  | none => trivial
  | some sentence => exact hfound sentence rfl

/-- The phrase of a whole text has the parts that the language has. -/
theorem written_of_sentence {cs : List Char} {found : Sentence} (h : sentence cs = .ok found) :
  found.Written
  := by
  rw [sentence] at h
  split at h
  case h_1 found cursor after hread =>
    cases h
    exact finds_readQuery.holds hread
  case h_2 => cases h

/-! ### Operands -/

theorem forall₂_of_allToQueries_eq_ok {schema : Schema} {whole : List Char}
    {phrases : List Phrase} {qs : List Query} (h : allToQueries schema whole phrases = .ok qs) :
  List.Forall₂ (fun phrase q => Phrase.toQuery schema whole phrase = .ok q) phrases qs
  := by
  induction phrases generalizing qs with
  | nil =>
    cases h
    exact .nil
  | cons phrase rest ih =>
    rw [allToQueries] at h
    split at h
    case h_1 => cases h
    case h_2 q hphrase =>
      obtain ⟨others, hrest, rfl⟩ := map_eq_ok_iff.mp h
      exact .cons hphrase (ih hrest)

end Syntax

/-! ### Trees -/

namespace Query.Canonical

variable {schema : Schema} {good : Rule → Prop} {known : String → Prop}

/-- A chain of operands whose trees are canonical is canonical. -/
theorem chain_of_operands {condition : Condition} {operands : List Syntax.Phrase}
    (hne : operands ≠ []) {whole : List Char}
    (hoperands : ∀ operand ∈ operands, ∀ {q : Query},
      operand.toQuery schema whole = .ok q → Canonical good known q) {q : Query}
    (h : (Syntax.allToQueries schema whole operands).map (Query.chain condition) = .ok q) :
  Canonical good known q
  := by
  obtain ⟨qs, hqs, rfl⟩ := map_eq_ok_iff.mp h
  have hread := Syntax.forall₂_of_allToQueries_eq_ok hqs
  apply Canonical.chain
  · rintro rfl
    cases hread
    exact hne rfl
  · intro q hq
    obtain ⟨operand, hmem, hoperand⟩ := exists_of_forall₂ hread.flip hq
    exact hoperands operand hmem hoperand

section Reading

variable
  (hnegate : ∀ x operator, good x → x.operator.negated? = some operator → good { x with operator })
  (hcomparison : ∀ {field operator : List Char} {operatorEnd : Nat}
    {value : Option Syntax.Literal} {q : Query}, Syntax.isIdentifier field = true →
    (∀ literal ∈ value, literal.Closed) →
    Syntax.comparisonRule schema field operator operatorEnd value = .ok q → Canonical good known q)
  (hshorthand : ∀ {literal : List Char} {place : Nat} {q : Query},
    Syntax.shorthand schema literal place = .ok q → Canonical good known q)

include hnegate hcomparison in
/-- The tree of a phrase is canonical if what its comparisons and its lone names mean is. -/
theorem of_toQuery {whole : List Char}
    (hname : ∀ {text : List Char} {start : Nat} {q : Query},
      Syntax.nameQuery schema whole text start = .ok q → Canonical good known q)
    {phrase : Syntax.Phrase} (hphrase : phrase.Written) {q : Query}
    (h : phrase.toQuery schema whole = .ok q) :
  Canonical good known q
  := by
  induction hphrase generalizing q with
  | anyOf hne _ ih =>
    rw [Syntax.Phrase.toQuery] at h
    exact chain_of_operands hne ih h
  | allOf hne _ ih =>
    rw [Syntax.Phrase.toQuery] at h
    exact chain_of_operands hne ih h
  | @not operand _ ih =>
    rw [Syntax.Phrase.toQuery] at h
    obtain ⟨inner, hinner, rfl⟩ := map_eq_ok_iff.mp h
    exact (ih hinner).negate hnegate
  | empty =>
    cases h
    exact .empty false
  | group _ ih =>
    rw [Syntax.Phrase.toQuery] at h
    exact ih h
  | comparison hfield hvalue =>
    rw [Syntax.Phrase.toQuery] at h
    exact hcomparison hfield hvalue h
  | name text start =>
    rw [Syntax.Phrase.toQuery] at h
    exact hname h

include hnegate hcomparison hshorthand in
/-- What is parsed is canonical if what comparisons, lone names and texts without operators mean
is. -/
theorem of_parse
    (hname : ∀ {whole text : List Char} {start : Nat} {q : Query},
      Syntax.nameQuery schema whole text start = .ok q → Canonical good known q)
    {s : String} {q : Query} (h : Query.parse schema s = .ok q) :
  Canonical good known q
  := by
  rw [Query.parse, parseChars] at h
  split at h
  case isTrue =>
    cases h
    exact .empty false
  case isFalse =>
    split at h
    case h_1 => cases h
    case h_2 =>
      rw [parseDelimited] at h
      split at h
      case h_1 => cases h
      case h_2 found hfound =>
        cases found with
        | freeText raw start => exact hshorthand h
        | phrase phrase =>
          exact of_toQuery hnegate hcomparison hname (Syntax.written_of_sentence hfound) h
        | blank =>
          cases h
          exact .empty false

end Reading

end Query.Canonical

/-! ### Rules and names that a text can state -/

/-- Whether the default field of a schema, if there is one, is stored under its own name, and that
name is an identifier. -/
def Schema.NamesDefault (schema : Schema) : Prop :=
  ∀ name field, schema.defaultField = some name → schema.field? name = some field →
    field.name = name ∧ Syntax.isIdentifier name.toList = true

/-- The complementary operator needs no value either. -/
theorem Operator.requiresValue_of_negated? {op operator : Operator}
    (h : op.negated? = some operator) :
  operator.requiresValue = op.requiresValue
  := by
  cases op <;> cases h <;> rfl

/-- A rule that a text can state can be stated with the complementary operator. -/
theorem Rule.Proper.negated {schema : Schema} {x : Rule} (hx : x.Proper schema)
    {operator : Operator} (hoperator : x.operator.negated? = some operator) :
  Rule.Proper schema { x with operator }
  := by
  refine ⟨hx.isIdentifier, hx.hasField, hx.value, ?_⟩
  intro hvalue
  rw [Operator.requiresValue_of_negated? hoperator]
  exact hx.noValue hvalue

/-- The default field of a schema is one of its fields. -/
theorem Schema.exists_name_of_shorthandField? {schema : Schema} {field : Field}
    (h : schema.shorthandField? = some field) :
  ∃ name, schema.defaultField = some name ∧ schema.field? name = some field
    ∧ schema.hasField name = true
  := by
  obtain ⟨name, hname, hfound⟩ := Option.bind_eq_some_iff.1 h
  refine ⟨name, hname, hfound, ?_⟩
  rw [hasField, Table.contains, ← field?.eq_1, hfound]
  rfl

/-- Whether a tree is canonical, and a text can state its rules and names against a schema. -/
def Query.Parsed (schema : Schema) : Query → Prop :=
  Query.Canonical (fun x => x.Proper schema)
    fun name => isReferenceName name.toList = true ∧ schema.hasField name = false

namespace Query.Parsed

variable {schema : Schema}

theorem shorthand (hdefault : schema.NamesDefault) {literal : List Char} {place : Nat} {q : Query}
    (h : Syntax.shorthand schema literal place = .ok q) :
  q.Parsed schema
  := by
  rw [Syntax.shorthand] at h
  split at h
  case h_1 => cases h
  case h_2 field hfield =>
    cases h
    obtain ⟨name, hname, hfound, hknown⟩ := Schema.exists_name_of_shorthandField? hfield
    obtain ⟨heq, hidentifier⟩ := hdefault name field hname hfound
    apply Canonical.rule
    constructor
    · simpa only [heq] using hidentifier
    · rw [heq]
      exact hknown
    · rintro _ ⟨⟩
      trivial
    · rintro ⟨⟩

theorem comparisonRule {field operator : List Char} (hfield : Syntax.isIdentifier field = true)
    {value : Option Syntax.Literal} (hvalue : ∀ literal ∈ value, literal.Closed)
    {operatorEnd : Nat} {q : Query}
    (h : Syntax.comparisonRule schema field operator operatorEnd value = .ok q) :
  q.Parsed schema
  := by
  rw [Syntax.comparisonRule] at h
  simp only [Bool.not_eq_true'] at h
  split at h
  case isTrue => cases h
  case isFalse hknown =>
    rw [Bool.not_eq_false] at hknown
    split at h
    case h_1 => cases h
    case h_2 operator _ =>
      cases value with
      | none =>
        simp only at h
        split at h
        case isTrue => cases h
        case isFalse hnone =>
          cases h
          apply Canonical.rule
          refine ⟨by simpa using hfield, hknown, ?_, ?_⟩
          · rintro _ ⟨⟩
          · intro _
            simpa using hnone
      | some literal =>
        obtain ⟨v, hv, rfl⟩ := map_eq_ok_iff.mp h
        apply Canonical.rule
        refine ⟨by simpa using hfield, hknown, ?_, ?_⟩
        · rintro _ ⟨⟩
          exact Syntax.Literal.proper_of_toValue (hvalue literal rfl) hv
        · rintro ⟨⟩

/-- What a lone name means is canonical, unless it is looked for in the default field. -/
theorem nameQuery_or_shorthand {whole text : List Char} {start : Nat} {q : Query}
    (h : Syntax.nameQuery schema whole text start = .ok q) :
  q.Parsed schema
    ∨ isReferenceName text = false ∧ text = whole ∧ Syntax.shorthand schema text start = .ok q
  := by
  rw [Syntax.nameQuery] at h
  split at h
  case isTrue => cases h
  case isFalse hfield =>
    split at h
    case isTrue hname =>
      cases h
      left
      apply Canonical.reference
      exact ⟨by simpa using hname, by simpa using hfield⟩
    case isFalse hname =>
      split at h
      case isTrue hwhole => exact .inr ⟨by simpa using hname, hwhole, h⟩
      case isFalse => cases h

/-- What a lone name means is canonical. -/
theorem nameQuery (hdefault : schema.NamesDefault) {whole text : List Char} {start : Nat}
    {q : Query} (h : Syntax.nameQuery schema whole text start = .ok q) :
  q.Parsed schema
  := by
  obtain hparsed | ⟨-, -, hsearch⟩ := nameQuery_or_shorthand h
  · exact hparsed
  · exact shorthand hdefault hsearch

end Query.Parsed

/-- What is parsed is canonical, of rules and names that a text can state. -/
theorem Query.parsed_of_parse {schema : Schema} (hdefault : schema.NamesDefault) {s : String}
    {q : Query} (h : parse schema s = .ok q) :
  q.Parsed schema
  := by
  apply Canonical.of_parse _ _ (Parsed.shorthand hdefault) (Parsed.nameQuery hdefault) h
  · intro x operator hx hoperator
    exact hx.negated hoperator
  · intro _ _ _ _ _ hfield hvalue hrule
    exact Parsed.comparisonRule hfield hvalue hrule

end Sift
