import Sift.Proofs.Query.Canonical
import Sift.Proofs.Syntax.Literal

/-!
# Printed phrases

`ReadAs` says that a reader of phrases reads a text as a tree, where the text behind it closes what
was read (`Closes`). Rules, names and groups that are printed are read as operands, operands with
signs between them as a chain (`IsChain.readAnyOf`), and chains can be joined to longer ones
(`IsChain.join`).
-/

namespace Sift

theorem Rule.chars_eq (x : Rule) :
  x.chars = x.field.toList
    ++ ' ' :: (x.operator.token.toList ++ x.value.elim [] (' ' :: ·.chars))
  := by
  cases h : x.value with
  | none => simp [chars, h]
  | some v => simp [chars, h]

/-- Whether a rule is one that a text can state against a schema. -/
structure Rule.Proper (schema : Schema) (x : Rule) : Prop where
  isIdentifier : Syntax.isIdentifier x.field.toList = true
  hasField : schema.hasField x.field = true
  value : ∀ v ∈ x.value, v.Proper
  noValue : x.value = none → x.operator.requiresValue = false

/-- Whether a rule can be written down against a schema. -/
structure Rule.Legible (schema : Schema) (x : Rule) : Prop where
  isIdentifier : Syntax.isIdentifier x.field.toList = true
  hasField : schema.hasField x.field = true
  value : ∀ v ∈ x.value, v.Legible
  noValue : x.value = none → x.operator.requiresValue = false

theorem Rule.Legible.proper {schema : Schema} {x : Rule} (hx : x.Legible schema) :
  x.Proper schema
  := ⟨hx.isIdentifier, hx.hasField, fun v hv => (hx.value v hv).proper, hx.noValue⟩

/-- The numbers that a rule compares with. -/
def Rule.numbers (x : Rule) : List Number :=
  x.value.elim [] Value.numbers

/-- A rule that a text can state can be written down if its numbers are finite. -/
theorem Rule.Proper.legible {schema : Schema} {x : Rule} (hx : x.Proper schema)
    (hfinite : ∀ n ∈ x.numbers, n.isFinite = true) :
  x.Legible schema
  := by
  refine ⟨hx.isIdentifier, hx.hasField, ?_, hx.noValue⟩
  intro v hv
  apply (hx.value v hv).legible
  rw [numbers, Option.mem_def.1 hv] at hfinite
  exact hfinite

/-- Whether a mention can be written down against a schema. -/
structure Reference.Legible (schema : Schema) (ref : Reference) : Prop where
  isReferenceName : isReferenceName ref.name.toList = true
  notField : schema.hasField ref.name = false

namespace Syntax

open Reader

/-! ### What comes behind an operand -/

/-- Whether a text goes on with nothing, a closing parenthesis, or the sign of some conditions. -/
def Closes (conditions : List Condition) (rest : List Char) : Prop :=
  rest = [] ∨ (∃ behind, rest = ')' :: behind)
    ∨ ∃ condition ∈ conditions, ∃ behind, rest = Query.separator condition ++ behind

namespace Closes

variable {conditions : List Condition} {rest : List Char}

theorem separator {condition : Condition} (h : condition ∈ conditions) (behind : List Char) :
  Closes conditions (Query.separator condition ++ behind)
  := .inr (.inr ⟨condition, h, behind, rfl⟩)

theorem mono {others : List Condition} (hsub : ∀ condition ∈ conditions, condition ∈ others)
    (h : Closes conditions rest) :
  Closes others rest
  := by
  obtain h | h | ⟨condition, hmem, behind, h⟩ := h
  · exact .inl h
  · exact .inr (.inl h)
  · exact .inr (.inr ⟨condition, hsub condition hmem, behind, h⟩)

theorem head (h : Closes conditions rest) :
  ∀ c ∈ rest.head?, c = ')' ∨ c = ' '
  := by
  obtain rfl | ⟨behind, rfl⟩ | ⟨condition, -, behind, rfl⟩ := h
  · simp
  · rintro _ ⟨⟩
    exact .inl rfl
  · rintro _ ⟨⟩
    exact .inr rfl

theorem endsWord (h : Closes conditions rest) :
  endsWord rest = true
  := by
  cases rest with
  | nil => rfl
  | cons c rest =>
    obtain rfl | rfl := h.head c rfl <;> rfl

theorem not_isOperatorSign (h : Closes conditions rest) :
  ∀ c ∈ rest.head?, isOperatorSign c = false
  := by
  intro c hc
  obtain rfl | rfl := h.head c hc <;> rfl

/-- The sign behind an operand is seen behind the layout before it. -/
theorem head_afterLayout (h : Closes conditions rest) :
  ∀ c ∈ (afterLayout rest).head?, c = ')' ∨ ∃ condition ∈ conditions, c = condition.token
  := by
  obtain rfl | ⟨behind, rfl⟩ | ⟨condition, hmem, behind, rfl⟩ := h
  · simp [afterLayout]
  · rintro _ ⟨⟩
    exact .inl rfl
  · have hhead : (afterLayout (Query.separator condition ++ behind)).head?
        = some condition.token := by
      cases condition <;> rfl
    rw [hhead]
    rintro _ ⟨⟩
    exact .inr ⟨condition, hmem, rfl⟩

/-- A chain ends where there is no sign of its own. -/
theorem head_afterLayout_ne {condition : Condition} (h : Closes conditions rest)
    (hmem : condition ∉ conditions) :
  (afterLayout rest).head? ≠ some condition.token
  := by
  intro hhead
  obtain hc | ⟨other, hother, hc⟩ := h.head_afterLayout _ hhead
  · cases condition <;> cases hc
  · have heq : condition = other := by
      cases condition <;> cases other <;> cases hc <;> rfl
    exact hmem (heq ▸ hother)

end Closes

/-! ### Reading as a tree -/

/-- Whether a phrase means a tree, in whatever text it stands. -/
def Phrase.Denotes (schema : Schema) (phrase : Phrase) (q : Query) : Prop :=
  ∀ whole, phrase.toQuery schema whole = .ok q

/-- Whether an operand can begin with a character. -/
def isOperandStart (c : Char) : Bool :=
  c = '!' || c = '(' || isIdentifierStart c

/-- Whether a reader reads a text as a tree, where the text behind it closes it. -/
structure ReadAs (schema : Schema) (reader : Reader Phrase) (conditions : List Condition)
    (text : List Char) (q : Query) : Prop where
  head : text.head?.any isOperandStart = true
  reads : ∀ rest, Closes conditions rest → Reads reader (text ++ rest) fun phrase behind =>
    phrase.Denotes schema q ∧ afterLayout behind = afterLayout rest

theorem isOperandStart_of_isIdentifierStart {c : Char} (h : isIdentifierStart c = true) :
  isOperandStart c = true
  := by
  simp [isOperandStart, h]

theorem not_isLayout_of_isOperandStart {c : Char} (hc : isOperandStart c = true) :
  isLayout c = false
  := by
  by_contra h
  have hlayout : isLayout c = true := by simpa using h
  obtain rfl | rfl | rfl | rfl := isLayout_cases hlayout <;> cases hc

theorem head_of_isOperandStart {text : List Char} (h : text.head?.any isOperandStart = true) :
  text.head?.any (!isLayout ·) = true
  := by
  cases text with
  | nil => cases h
  | cons c text =>
    have hc : isOperandStart c = true := by simpa using h
    simp [not_isLayout_of_isOperandStart hc]

theorem afterLayout_operand {text : List Char} (h : text.head?.any isOperandStart = true)
    (rest : List Char) :
  afterLayout (text ++ rest) = text ++ rest
  := afterLayout_append (head_of_isOperandStart h) rest

theorem exists_isIdentifierStart {name : List Char} (h : isIdentifier name = true) :
  ∃ c rest, name = c :: rest ∧ isIdentifierStart c = true
  := by
  cases name with
  | nil => cases h
  | cons c rest =>
    rw [isIdentifier, Bool.and_eq_true] at h
    exact ⟨c, rest, rfl, h.1⟩

theorem identifier_head {name : List Char} (h : isIdentifier name = true) :
  name.head?.any isOperandStart = true
  := by
  obtain ⟨c, rest, rfl, hc⟩ := exists_isIdentifierStart h
  simp [isOperandStart_of_isIdentifierStart hc]

theorem identifier_head_ne {name : List Char} (h : isIdentifier name = true) {sign : Char}
    (hsign : isIdentifierStart sign = false) (rest : List Char) :
  (name ++ rest).head? ≠ some sign
  := by
  obtain ⟨c, tail, rfl, hc⟩ := exists_isIdentifierStart h
  rintro ⟨⟩
  rw [hc] at hsign
  cases hsign

/-! ### Operands -/

variable {schema : Schema} {inner : Reader Phrase}

theorem refuses_readGroup {cs : List Char} (h : cs.head? ≠ some '(') :
  Refuses (readGroup inner) cs
  := Refuses.construct (Refuses.bind (Refuses.sign h))

theorem refuses_readIdentifier {cs : List Char} (h : ∀ c ∈ cs.head?, isIdentifierStart c = false) :
  Refuses readIdentifier cs
  := by
  apply Refuses.construct
  apply Refuses.lexeme
  cases cs with
  | nil => rfl
  | cons c cs => rw [identifier, h c rfl, if_neg Bool.false_ne_true]

theorem reads_readIdentifier {name rest : List Char} (hname : isIdentifier name = true)
    (hrest : endsWord rest = true) :
  Reads readIdentifier (name ++ rest) fun found behind => found = name ∧ behind = rest
  := Reads.construct (Reads.lexeme (identifier_append hname hrest) ⟨rfl, rfl⟩)

/-- Where no operand begins none is read. -/
theorem refuses_readOperand {cs : List Char} (h : ∀ c ∈ cs.head?, isOperandStart c = false)
    (hlayout : afterLayout cs = cs) :
  Refuses (readOperand inner) cs
  := by
  have hne {c : Char} (hc : isOperandStart c = true) : cs.head? ≠ some c := by
    intro hhead
    rw [h c hhead] at hc
    cases hc
  have hstart : ∀ c ∈ cs.head?, isIdentifierStart c = false := by
    intro c hc
    have := h c hc
    simp only [isOperandStart, Bool.or_eq_false_iff] at this
    exact this.2
  have hsign : Reads (optional (construct .negation (sign '!'))) cs
      fun negation behind => negation = none ∧ behind = cs :=
    Reads.optional_none (Refuses.construct (Refuses.sign (hne rfl))) ⟨rfl, rfl⟩
  apply Refuses.construct
  apply Refuses.bind_of_reads hsign
  rintro _ behind ⟨rfl, hbehind⟩
  apply Refuses.layout_bind
  rw [hbehind, hlayout]
  apply Refuses.bind
  apply Refuses.construct
  apply Refuses.or (refuses_readGroup (hne rfl))
  apply Refuses.or
  · exact Refuses.construct (Refuses.bind (refuses_readIdentifier hstart))
  · have hplace : Reads place cs fun _ behind => behind = cs := Reads.place fun _ => rfl
    apply Refuses.construct
    apply Refuses.bind_of_reads hplace
    intro _ behind hbehind
    rw [hbehind]
    exact Refuses.bind (refuses_readIdentifier hstart)

namespace ReadAs

variable {conditions : List Condition} {text : List Char} {q : Query}

/-- What is read without an exclamation mark is an operand. -/
theorem operand (h : ReadAs schema (readPrimary inner) conditions text q)
    (hsign : text.head? ≠ some '!') :
  ReadAs schema (readOperand inner) conditions text q
  := by
  refine ⟨h.head, ?_⟩
  intro rest hrest
  have hhead : (text ++ rest).head? ≠ some '!' := by
    cases text with
    | nil => exact absurd h.head Bool.false_ne_true
    | cons c text => exact hsign
  have hnone : Reads (optional (construct .negation (sign '!'))) (text ++ rest)
      fun negation behind => negation = none ∧ behind = text ++ rest :=
    Reads.optional_none (Refuses.construct (Refuses.sign hhead)) ⟨rfl, rfl⟩
  apply Reads.construct
  apply Reads.bind hnone
  rintro _ _ ⟨rfl, rfl⟩
  apply Reads.layout_bind
  rw [afterLayout_operand h.head]
  apply Reads.bind (h.reads rest hrest)
  intro phrase behind hphrase
  exact Reads.pure hphrase

/-- What is read behind an exclamation mark is negated. -/
theorem negate (h : ReadAs schema (readPrimary inner) conditions text q) :
  ReadAs schema (readOperand inner) conditions ('!' :: text) q.negate
  := by
  refine ⟨rfl, ?_⟩
  intro rest hrest
  have hsome : Reads (optional (construct .negation (sign '!'))) ('!' :: (text ++ rest))
      fun negation behind => negation.isSome = true ∧ behind = text ++ rest :=
    Reads.optional_some (Reads.construct (Reads.sign ⟨rfl, rfl⟩))
  rw [List.cons_append]
  apply Reads.construct
  apply Reads.bind hsome
  rintro negation _ ⟨hnegation, rfl⟩
  apply Reads.layout_bind
  rw [afterLayout_operand h.head]
  apply Reads.bind (h.reads rest hrest)
  rintro phrase behind ⟨hphrase, hbehind⟩
  rw [if_pos hnegation]
  apply Reads.pure
  refine ⟨?_, hbehind⟩
  intro whole
  rw [Phrase.toQuery, hphrase whole]
  rfl

end ReadAs

/-! ### Rules, names and groups -/

theorem operator_head (op : Operator) (rest : List Char) :
  afterLayout (op.token.toList ++ rest) = op.token.toList ++ rest
  := by
  apply afterLayout_append
  cases op <;> decide

theorem ofToken?_token (op : Operator) :
  Operator.ofToken? op.token = some op
  := by
  have hlowercase : Text.lowercaseAscii op.token = op.token := by
    apply String.toList_injective
    rw [Text.lowercaseAscii, String.toList_map]
    cases op <;> decide
  rw [Operator.ofToken?, hlowercase, Operator.ofExactToken?_token]

/-- Whether a rule is written down against a schema so that it is read with the value `read`. -/
structure RuleReadsAs (schema : Schema) (x : Rule) (read : Option Value) : Prop where
  isIdentifier : isIdentifier x.field.toList = true
  hasField : schema.hasField x.field = true
  value : Option.Rel ReadsAsValue x.value read
  noValue : x.value = none → x.operator.requiresValue = false

theorem ruleReadsAs {x : Rule} (hx : x.Proper schema) :
  RuleReadsAs schema x (x.value.map Value.reread)
  := by
  refine ⟨hx.isIdentifier, hx.hasField, ?_, hx.noValue⟩
  cases hvalue : x.value with
  | none => exact .none
  | some v => exact .some (readsAsValue (hx.value v hvalue))

/-- What a printed comparison means. -/
theorem denotes_comparison {x : Rule} {read : Option Value} (hx : RuleReadsAs schema x read)
    {literal : Option Literal}
    (hliteral : Option.Rel (fun literal v => literal.toValue = .ok v) literal read)
    (operatorEnd : Nat) :
  Phrase.Denotes schema
    (.comparison x.field.toList x.operator.token.toList operatorEnd literal)
    (.ofRule { x with value := read })
  := by
  intro whole
  rw [Phrase.toQuery, comparisonRule]
  simp only [String.ofList_toList, hx.hasField, ofToken?_token, Bool.not_true,
    Bool.false_eq_true, if_false]
  have hvalue := hx.value
  cases hliteral with
  | none =>
    generalize hnone : x.value = value at hvalue
    cases hvalue
    simp only [hx.noValue hnone, Bool.false_eq_true, if_false]
  | some hfound =>
    simp only [hfound]
    rfl

/-- The value behind the operator of a rule, if there is one. -/
def valueText (x : Rule) : List Char :=
  x.value.elim [] (' ' :: ·.chars)

/-- The value of a printed rule is read, and none if it has none. -/
theorem reads_value {x : Rule} {read : Option Value} (hx : RuleReadsAs schema x read)
    {rest : List Char} (hrest : Closes [.and, .or] rest) :
  Reads (optional readLiteral) (afterLayout (valueText x ++ rest)) fun literal behind =>
    Option.Rel (fun literal v => literal.toValue = .ok v) literal read
      ∧ afterLayout behind = afterLayout rest
  := by
  have hvalue := hx.value
  rw [valueText]
  generalize x.value = value at hvalue
  cases hvalue with
  | none =>
    apply Reads.optional_none
    · apply refuses_readLiteral
      intro c hc
      obtain rfl | ⟨condition, -, rfl⟩ := hrest.head_afterLayout c hc
      · exact .inl rfl
      · cases condition
        · exact .inr (.inl rfl)
        · exact .inr (.inr rfl)
    · exact ⟨.none, afterLayout_afterLayout rest⟩
  | @some v w hvalue =>
    have hskip : afterLayout (' ' :: v.chars ++ rest) = v.chars ++ rest :=
      afterLayout_append hvalue.head rest
    rw [Option.elim_some, hskip]
    apply Reads.optional_some
    apply (hvalue.reads rest hrest.endsWord).mono
    rintro found _ ⟨hfound, rfl⟩
    exact ⟨.some hfound, rfl⟩

/-- The operator of a printed rule is read. -/
theorem reads_operator {x : Rule} {rest : List Char} (hrest : Closes [.and, .or] rest) :
  Reads (construct .operator (lexeme operator))
    (x.operator.token.toList ++ (valueText x ++ rest)) fun found behind =>
      found = x.operator.token.toList ∧ behind = valueText x ++ rest
  := by
  have hnext : endsWord (valueText x ++ rest) = true
      ∧ ∀ c ∈ (valueText x ++ rest).head?, isOperatorSign c = false := by
    rw [valueText]
    cases x.value with
    | none => exact ⟨hrest.endsWord, hrest.not_isOperatorSign⟩
    | some v =>
      constructor
      · rfl
      · rintro _ ⟨⟩
        rfl
  apply Reads.construct
  apply Reads.lexeme (operator_token_append _ hnext.1 hnext.2)
  exact ⟨rfl, rfl⟩

/-- A printed rule is read as the rule with the value that its text is read as. -/
theorem readAs_rule {x : Rule} {read : Option Value} (hx : RuleReadsAs schema x read) :
  ReadAs schema (readPrimary inner) [.and, .or] x.chars (.ofRule { x with value := read })
  := by
  constructor
  · obtain ⟨c, name, hname, hc⟩ := exists_isIdentifierStart hx.isIdentifier
    rw [Rule.chars_eq, hname]
    exact isOperandStart_of_isIdentifierStart hc
  intro rest hrest
  have htext : x.chars ++ rest
      = x.field.toList ++ ' ' :: (x.operator.token.toList ++ (valueText x ++ rest)) := by
    simp only [Rule.chars_eq, valueText, List.append_assoc, List.cons_append]
  have hskip : afterLayout (' ' :: (x.operator.token.toList ++ (valueText x ++ rest)))
      = x.operator.token.toList ++ (valueText x ++ rest) := operator_head x.operator _
  have hplace : Reads place (valueText x ++ rest)
      fun _ behind => behind = valueText x ++ rest := Reads.place fun _ => rfl
  rw [htext]
  apply Reads.construct
  apply Reads.or_right
  · exact refuses_readGroup (identifier_head_ne hx.isIdentifier rfl _)
  apply Reads.or_left
  apply Reads.construct
  apply Reads.bind (reads_readIdentifier hx.isIdentifier rfl)
  rintro _ _ ⟨rfl, rfl⟩
  apply Reads.layout_bind
  rw [hskip]
  apply Reads.bind (reads_operator hrest)
  rintro _ behind ⟨rfl, hbehind⟩
  rw [hbehind]
  apply Reads.bind hplace
  intro operatorEnd behind hbehind
  rw [hbehind]
  apply Reads.layout_bind
  apply Reads.bind (reads_value hx hrest)
  rintro literal behind ⟨hliteral, hbehind⟩
  apply Reads.pure
  exact ⟨denotes_comparison hx hliteral operatorEnd, hbehind⟩

theorem isIdentifier_of_isReferenceName {name : List Char} (h : isReferenceName name = true) :
  isIdentifier name = true
  := by
  cases name with
  | nil => cases h
  | cons c rest =>
    simp only [isReferenceName, Bool.and_eq_true, List.all_eq_true] at h
    simp only [isIdentifier, Bool.and_eq_true, List.all_eq_true]
    constructor
    · have halpha : c.isAlpha = true := Bool.or_eq_true_iff.2 (.inl h.1)
      simp only [isIdentifierStart, halpha, Bool.true_or]
    · intro d hd
      have := h.2 d hd
      simp only [Bool.or_eq_true] at this
      simp only [isIdentifierChar, Bool.or_eq_true]
      exact .inl this

/-- A printed name is read as the name. -/
theorem readAs_name {ref : Reference} (href : ref.Legible schema) :
  ReadAs schema (readPrimary inner) [.and, .or] ref.name.toList (.reference { name := ref.name })
  := by
  have hname := isIdentifier_of_isReferenceName href.isReferenceName
  refine ⟨identifier_head hname, ?_⟩
  intro rest hrest
  have hread := reads_readIdentifier hname hrest.endsWord
  have hplace : Reads place (ref.name.toList ++ rest)
      fun _ behind => behind = ref.name.toList ++ rest := Reads.place fun _ => rfl
  apply Reads.construct
  apply Reads.or_right
  · exact refuses_readGroup (identifier_head_ne hname rfl _)
  apply Reads.or_right
  · apply Refuses.construct
    apply Refuses.bind_of_reads hread
    rintro _ _ ⟨rfl, rfl⟩
    apply Refuses.layout_bind
    apply Refuses.bind
    apply Refuses.construct
    apply Refuses.lexeme
    apply operator_eq_none
    intro c hc
    obtain rfl | ⟨condition, -, rfl⟩ := hrest.head_afterLayout c hc
    · decide
    · cases condition <;> decide
  · apply Reads.construct
    apply Reads.bind hplace
    intro start behind hbehind
    rw [hbehind]
    apply Reads.bind hread
    rintro _ _ ⟨rfl, rfl⟩
    apply Reads.pure
    refine ⟨?_, rfl⟩
    intro whole
    rw [Phrase.toQuery, nameQuery]
    simp only [String.ofList_toList, href.notField, href.isReferenceName, Bool.false_eq_true,
      if_false, if_true]

/-- Empty parentheses are read as what every document meets. -/
theorem readAs_empty (hinner : ∀ rest, Refuses inner (')' :: rest)) :
  ReadAs schema (readPrimary inner) [.and, .or] ['(', ')'] .everything
  := by
  refine ⟨rfl, ?_⟩
  intro rest _
  have hnone : Reads (optional inner) (')' :: rest) fun found behind =>
      found = none ∧ behind = ')' :: rest :=
    Reads.optional_none (hinner rest) ⟨rfl, rfl⟩
  apply Reads.construct
  apply Reads.or_left
  apply Reads.construct
  apply Reads.sign_bind
  apply Reads.layout_bind
  apply Reads.bind hnone
  rintro _ _ ⟨rfl, rfl⟩
  apply Reads.layout_bind
  apply Reads.sign_bind
  apply Reads.pure
  exact ⟨fun _ => rfl, rfl⟩

/-- Parentheses around what is read as a tree are read as it. -/
theorem readAs_group {text : List Char} {q : Query} (h : ReadAs schema inner [] text q) :
  ReadAs schema (readPrimary inner) [.and, .or] ('(' :: text ++ [')']) q
  := by
  refine ⟨rfl, ?_⟩
  intro rest _
  have htext : '(' :: text ++ [')'] ++ rest = '(' :: (text ++ ')' :: rest) := by simp
  have hsome : Reads (optional inner) (text ++ ')' :: rest) fun found behind =>
      (∃ phrase, found = some phrase ∧ phrase.Denotes schema q)
      ∧ afterLayout behind = ')' :: rest := by
    apply Reads.optional_some
    apply (h.reads (')' :: rest) (.inr (.inl ⟨rest, rfl⟩))).mono
    rintro phrase behind ⟨hphrase, hbehind⟩
    exact ⟨⟨phrase, rfl, hphrase⟩, hbehind⟩
  rw [htext]
  apply Reads.construct
  apply Reads.or_left
  apply Reads.construct
  apply Reads.sign_bind
  apply Reads.layout_bind
  rw [afterLayout_operand h.head]
  apply Reads.bind hsome
  rintro _ behind ⟨⟨phrase, rfl, hphrase⟩, hbehind⟩
  apply Reads.layout_bind
  rw [hbehind]
  apply Reads.sign_bind
  apply Reads.pure
  refine ⟨?_, rfl⟩
  intro whole
  exact hphrase whole

end Syntax

end Sift
