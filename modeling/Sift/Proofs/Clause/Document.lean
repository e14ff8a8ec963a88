import Sift.Proofs.Clause.Exact

/-!
# Rules about the document field

A rule about the field that stands for whole documents is made on all fields of a document. The
clause of such a rule fans out (`Compiler.FansOut`): it holds exactly if the clause of the same rule
about one of these fields does, and it names no other fields. `Compiler.compile_document` says so of
every rule that sets no bound, where a complementary operator stays outside of this disjunction.
-/

namespace Sift

/-! ### Fields of a clause -/

namespace Clause

mutual

/-- The fields that a clause names. -/
def fields : Clause → List String
  | term field _ | terms field _ | range field _ _ | regexp field _ | hasField field => [field]
  | queryString fields _ => fields
  | bool must mustNot should => fieldsOfAll must ++ fieldsOfAll mustNot ++ fieldsOfAll should
  | matchNone | matchAll => []

/-- The fields that some clauses name. -/
def fieldsOfAll : List Clause → List String
  | [] => []
  | clause :: rest => clause.fields ++ fieldsOfAll rest

end

@[simp]
theorem fieldsOfAll_eq_flatMap (clauses : List Clause) :
  fieldsOfAll clauses = clauses.flatMap fields
  := by
  induction clauses with
  | nil => rfl
  | cons _ _ ih => rw [fieldsOfAll, ih, List.flatMap_cons]

@[simp]
theorem fields_notIf (negated : Bool) (clause : Clause) :
  (clause.notIf negated).fields = clause.fields
  := by
  cases negated <;> simp [notIf, not, fields]

theorem fields_anyOf (clauses : List Clause) :
  (anyOf clauses).fields = clauses.flatMap fields
  := by
  match clauses with
  | [] => simp [anyOf, any, fields]
  | [only] => simp [anyOf]
  | first :: second :: rest => simp [anyOf, any, fields]

/-- Whether a search of some fields for words holds exactly if one of a single field does. -/
def SearchesEach (leaves : Clause → Bool) : Prop :=
  ∀ fields query,
    leaves (.queryString fields query) = fields.any fun field => leaves (.queryString [field] query)

end Clause

open Clause

/-! ### Rules about another field -/

namespace Rule

/-- The same rule about another field. -/
def about (x : Rule) (name : String) : Rule :=
  { x with field := name }

/-- Whether the clause of a rule is a complement: its operator is a complementary one, or else it is
a test for presence with the value false, but not both. -/
def isComplement (x : Rule) : Bool :=
  x.operator.isNegative != Compiler.isDenial x

/-- The rule with the complementary operator if its clause is a complement. -/
def affirmed (x : Rule) : Rule :=
  if x.isComplement then { x with operator := x.operator.negated?.getD x.operator } else x

end Rule

namespace Compiler

variable (compiler : Compiler) {field : Field} {x : Rule}

/-- A compiler for a schema with a field like `field` but for its name, in which no field stands for
whole documents. -/
def onField (field : Field) (name : String) : Compiler :=
  { compiler with
    schema.fields := compiler.schema.fields.insert name { field with name }
    schema.documentField := none }

theorem field?_onField (name : String) :
  (compiler.onField field name).schema.field? name = some { field with name }
  := by
  rw [Schema.field?, onField, Table.get?_insert, if_pos rfl]

/-! ### Faults -/

theorem regexFaults_rename {value : Value} (name : String) (h : regexFaults field value = []) :
  regexFaults { field with name } value = []
  := by
  cases value with
  | regex pattern ignoreCase =>
    rw [regexFaults] at h ⊢
    cases hconverted : Pattern.toEngine pattern ignoreCase with
    | ok converted => rfl
    | error fault =>
      rw [hconverted] at h
      cases h
  | _ => rfl

theorem optionFaults_eq_nil_iff {operator : Operator} {value : Value} :
  optionFaults field operator value = []
    ↔ ∀ options s, field.valueOptions = .listed options → value = .string s →
      operator.picksOption = true → Text.lowercase s ∈ options.map Text.lowercase
  := by
  unfold optionFaults
  split
  case h_1 options s hoptions => simp [hoptions]
  case h_2 hother =>
    refine ⟨fun _ options s hoptions hvalue _ => ?_, fun _ => rfl⟩
    exact absurd hvalue (hother options s hoptions)

/-- Whether a value has faults does not depend on the name of its field. -/
theorem valueFaults_rename {operator : Operator} {value : Value} (name : String)
    (h : valueFaults field operator value = []) :
  valueFaults { field with name } operator value = []
  := by
  have haccepts := accepts_of_valueFaults h
  rw [valueFaults, if_pos haccepts, List.append_eq_nil_iff] at h
  rw [valueFaults, if_pos haccepts, List.append_eq_nil_iff]
  have hoptions := optionFaults_eq_nil_iff.mp h.2
  exact ⟨regexFaults_rename name h.1, optionFaults_eq_nil_iff.mpr hoptions⟩

/-- A rule that is no test for presence and wants no list has the faults of its value. -/
theorem operandFaults_of_value {value : Value} (hpresent : x.operator.positive ≠ .present)
    (hin : x.operator.positive ≠ .isIn) (hvalue : x.value = some value) :
  operandFaults field x = valueFaults field x.operator value
  := by
  unfold operandFaults
  rw [hvalue]
  split
  case h_7 hsome _ _ _ _ =>
    cases hsome
    rfl
  all_goals contradiction

theorem operandFaults_rename (name : String) (h : operandFaults field x = []) :
  operandFaults { field with name } (x.about name) = []
  := by
  obtain ⟨hpresent, hvalue | ⟨b, hvalue⟩⟩ | ⟨hin, items, hvalue, hitems⟩
    | ⟨hpresent, hin, value, hvalue, hfaults⟩ := operandFaults_cases h
  · simp [operandFaults, Rule.about, hpresent, hvalue]
  · simp [operandFaults, Rule.about, hpresent, hvalue]
  · simp only [operandFaults, Rule.about, hin, hvalue]
    apply List.flatMap_eq_nil_iff.mpr
    intro item hitem
    exact valueFaults_rename name (hitems item hitem)
  · rw [operandFaults_of_value (x := x.about name) hpresent hin hvalue]
    exact valueFaults_rename name hfaults

/-- A rule without faults has none about a field of another name either. -/
theorem faults_onField (name : String) (hfield : compiler.schema.field? x.field = some field)
    (h : x.faults compiler.schema = []) :
  (x.about name).faults (compiler.onField field name).schema = []
  := by
  obtain ⟨found, hfound, hallowed, hoperand⟩ := Rule.exists_field_of_faults h
  cases hfound.symm.trans hfield
  have hfield' : (compiler.onField field name).schema.field? (x.about name).field
      = some { field with name } := compiler.field?_onField name
  have hallowed' : (x.about name).operator
      ∈ (compiler.onField field name).schema.operatorsFor { field with name } := hallowed
  simp only [Rule.faults, hfield', List.contains_iff_mem.mpr hallowed', if_true, List.nil_append]
  exact operandFaults_rename name hoperand

/-- A rule without faults is compiled to the clause that is made without remembering any answers. -/
theorem compiles_of_directRule {clause : Clause} (hfaults : x.faults compiler.schema = [])
    (h : compiler.directRule x = .ok clause) :
  compiler.Compiles x clause
  := by
  rw [Compiles, compiler.compile_eq_alone rfl]
  · exact (compiler.alone_rule x).trans h
  · change [] ++ x.faults compiler.schema ++ [] = []
    rw [hfaults]
    rfl

theorem faults_of_compiles {clause : Clause} (h : compiler.Compiles x clause) :
  x.faults compiler.schema = []
  := by
  obtain ⟨-, hfaults, -⟩ := compiler.compile_inv h
  exact Query.rule_faults_of_faults hfaults (Query.mem_nodes_self _)

/-! ### Clauses that fan out -/

/-- A clause that holds exactly if one of its parts for the fields of a document does, and names
only these fields and their keyword fields. -/
structure FansOut (clause : Clause) (part : String → Clause) : Prop where
  holds : ∀ leaves, SearchesEach leaves →
    clause.holds leaves = compiler.documentFields.any fun name => (part name).holds leaves
  fields : ∀ name ∈ clause.fields, name ∈ compiler.documentFields
    ∨ ∃ target ∈ compiler.documentFields, name = compiler.keyword target

theorem fansOut_anyOf (hfields : compiler.documentFields ≠ []) {part : String → Clause}
    (hpart : ∀ target, ∀ name ∈ (part target).fields,
      name = target ∨ name = compiler.keyword target) :
  compiler.FansOut (anyOf (compiler.documentFields.map part)) part
  := by
  constructor
  · intro leaves _
    rw [holds_anyOf, List.any_map]
    · rfl
    · simpa using hfields
  · intro name hname
    rw [fields_anyOf, List.flatMap_map, List.mem_flatMap] at hname
    obtain ⟨target, htarget, hname⟩ := hname
    obtain rfl | rfl := hpart target name hname
    · exact .inl htarget
    · exact .inr ⟨target, htarget, rfl⟩

theorem fansOut_queryString (query : String) :
  compiler.FansOut (.queryString compiler.documentFields query)
    fun name => .queryString [name] query
  := by
  constructor
  · intro leaves hleaves
    simp only [Clause.holds]
    exact hleaves _ _
  · intro name hname
    exact .inl hname

/-- A field that stands for whole documents, which have fields, is about all these fields. -/
theorem targets_of_isDocumentField (hdocument : compiler.schema.isDocumentField field.name = true)
    (hfields : compiler.documentFields ≠ []) :
  compiler.targets field = compiler.documentFields
  := by
  simp [targets, hdocument, hfields]

theorem fields_presence (target : String) :
  ∀ name ∈ (compiler.presence field target).fields, name = target ∨ name = compiler.keyword target
  := by
  rw [presence]
  split
  · simp [Clause.all, Clause.not, Clause.fields]
  · simp [Clause.fields]

theorem fields_reconciled (field : String) (stored wanted : List String) :
  ∀ name ∈ (reconciled field stored wanted).fields, name = field
  := by
  simp only [reconciled]
  split
  · simp [Clause.fields]
  · unfold oneOf
    split <;> simp [Clause.fields]

theorem matching_fansOut {pattern : String} {ignoreCase : Bool} {clause : Clause}
    (htargets : compiler.targets field = compiler.documentFields)
    (hfields : compiler.documentFields ≠ [])
    (h : compiler.matching field pattern ignoreCase = .ok clause) :
  ∃ part, compiler.FansOut clause part ∧ ∀ name ∈ compiler.documentFields,
    (compiler.onField field name).matching { field with name } pattern ignoreCase = .ok (part name)
  := by
  rw [matching] at h
  split at h
  case h_1 converted hconverted =>
    cases h
    rw [fanOut, htargets]
    refine ⟨_, compiler.fansOut_anyOf hfields ?_, ?_⟩
    · simp [Clause.fields]
    · intro name _
      rw [matching, hconverted]
      rfl
  case h_2 => cases h

theorem directExact_fansOut {values : List Value} {clause : Clause} (hstring : field.type = .string)
    (htargets : compiler.targets field = compiler.documentFields)
    (hfields : compiler.documentFields ≠ [])
    (h : compiler.directExact field values = .ok clause) :
  ∃ part, compiler.FansOut clause part ∧ ∀ name ∈ compiler.documentFields,
    (compiler.onField field name).directExact { field with name } values = .ok (part name)
  := by
  have hanswered := compiler.answered_of_directExact hstring h
  rw [compiler.directExact_inv hstring h]
  rw [htargets] at hanswered ⊢
  refine ⟨_, compiler.fansOut_anyOf hfields ?_, ?_⟩
  · intro target name hname
    exact .inr (fields_reconciled _ _ _ name hname)
  · intro name hname
    have hstring' : ({ field with name } : Field).type = .string := hstring
    apply (compiler.onField field name).directExact_of_answered values hstring'
    intro target htarget
    rw [List.mem_singleton.mp htarget]
    exact hanswered name hname

/-- The positive clause of a rule about the document has as its parts those of the same rule about
the fields of a document. -/
theorem directPositive_fansOut (hdocument : compiler.schema.isDocumentField field.name = true)
    (hstring : field.type = .string) (hfields : compiler.documentFields ≠ []) {clause : Clause}
    (h : compiler.directPositive field x = .ok clause) :
  ∃ part, compiler.FansOut clause part ∧ ∀ name ∈ compiler.documentFields,
    (compiler.onField field name).directPositive { field with name } (x.about name)
      = .ok (part name)
  := by
  have htargets := compiler.targets_of_isDocumentField hdocument hfields
  simp only [directPositive, Rule.about] at h ⊢
  split at h
  case h_1 =>
    cases h
    rw [fanOut, htargets]
    exact ⟨_, compiler.fansOut_anyOf hfields compiler.fields_presence, fun _ _ => rfl⟩
  case h_4 =>
    cases h
    rw [words, htargets]
    exact ⟨_, compiler.fansOut_queryString _, fun _ _ => rfl⟩
  case h_2 | h_3 | h_5 => exact compiler.matching_fansOut htargets hfields h
  case h_6 | h_7 => exact compiler.directExact_fansOut hstring htargets hfields h
  case h_8 => cases h

/-! ### Rules -/

/-- Rules with the same positive operator and the same value have the same positive clause. -/
theorem directPositive_congr {y : Rule} (hpositive : y.operator.positive = x.operator.positive)
    (hvalue : y.value = x.value) {clause : Clause}
    (h : compiler.directPositive field x = .ok clause) :
  compiler.directPositive field y = .ok clause
  := by
  simp only [directPositive, hpositive, hvalue] at h ⊢
  split at h
  case h_8 => cases h
  all_goals exact h

/-- A rule that sets no bound has its positive clause, or the complement. -/
theorem directRule_of_directPositive (hfield : compiler.schema.field? x.field = some field)
    (hbound : Bound.ofOperator? x.operator = none) {clause : Clause}
    (h : compiler.directPositive field x = .ok clause) :
  compiler.directRule x = .ok (clause.notIf x.isComplement)
  := by
  rw [directRule]
  simp only [hfield, hbound, h]
  rfl

theorem clauseOf_eq_directRule (x : Rule) :
  compiler.clauseOf x = compiler.directRule x
  := compiler.alone_rule x

end Compiler

theorem Bound.ofOperator?_eq_none_iff {operator : Operator} :
  Bound.ofOperator? operator = none ↔ operator.isRange = false
  := by
  cases operator <;> simp [ofOperator?, Operator.isRange]

namespace Rule

variable {x : Rule}

theorem affirmed_of_not_isComplement (h : x.isComplement = false) :
  x.affirmed = x
  := by
  rw [affirmed, h]
  rfl

/-- The clause of an affirmed rule is no complement, and otherwise the rule is as before. -/
theorem affirmed_inv (hrange : x.operator.isRange = false) :
  x.affirmed.operator.isRange = false ∧ x.affirmed.operator.positive = x.operator.positive
    ∧ x.affirmed.value = x.value ∧ x.affirmed.field = x.field ∧ x.affirmed.isComplement = false
  := by
  cases hcomplement : x.isComplement with
  | false =>
    rw [affirmed_of_not_isComplement hcomplement]
    exact ⟨hrange, rfl, rfl, rfl, hcomplement⟩
  | true =>
    cases hflipped : x.operator.negated? with
    | none =>
      rw [Operator.negated?_eq_none_iff, hrange] at hflipped
      cases hflipped
    | some flipped =>
      obtain ⟨hpositive, hsign, hrange'⟩ := Operator.negated?_inv hflipped
      have haffirmed : x.affirmed = { x with operator := flipped } := by
        rw [affirmed, hcomplement, if_pos rfl, hflipped]
        rfl
      rw [haffirmed]
      refine ⟨hrange', hpositive, rfl, rfl, ?_⟩
      rw [isComplement, Compiler.isDenial] at hcomplement ⊢
      simp only [hpositive, hsign]
      simpa using hcomplement

end Rule

namespace Compiler

variable (compiler : Compiler) {field : Field} {x : Rule}

/-- A rule that sets no bound and is about the document field, a string, is compiled to the clause
of the affirmed rule, or to its complement. This clause holds exactly if the clause of the same rule
about one of the fields of a document does, and the clause of the rule names only these fields and
their keyword fields. If the clause is no complement, the rule is the affirmed one, and is compiled
if it is about a field of a document. -/
theorem compile_document (hfield : compiler.schema.field? x.field = some field)
    (hdocument : compiler.schema.isDocumentField field.name = true)
    (hstring : field.type = .string) (hfields : compiler.documentFields ≠ [])
    (hrange : x.operator.isRange = false) {clause : Clause} (h : compiler.Compiles x clause) :
  ∃ affirmed, ∃ part : String → Clause,
    compiler.clauseOf x.affirmed = .ok affirmed
    ∧ (∀ name ∈ compiler.documentFields,
      (compiler.onField field name).clauseOf (x.affirmed.about name) = .ok (part name))
    ∧ (x.isComplement = false → ∀ name ∈ compiler.documentFields,
      (compiler.onField field name).Compiles (x.about name) (part name))
    ∧ (∀ leaves, clause.holds leaves = (x.isComplement ^^ affirmed.holds leaves))
    ∧ (∀ leaves, SearchesEach leaves →
      affirmed.holds leaves = compiler.documentFields.any fun name => (part name).holds leaves)
    ∧ ∀ name ∈ clause.fields, name ∈ compiler.documentFields
      ∨ ∃ target ∈ compiler.documentFields, name = compiler.keyword target
  := by
  obtain ⟨hrange', hpositive', hvalue', hfield', hcomplement'⟩ := Rule.affirmed_inv hrange
  have hbound := Bound.ofOperator?_eq_none_iff.mpr hrange
  have hbound' := Bound.ofOperator?_eq_none_iff.mpr hrange'
  obtain ⟨found, positive, hfound, hpositive, rfl⟩ :=
    compiler.directRule_inv hbound (compiler.directRule_of_compile h)
  cases hfound.symm.trans hfield
  have haffirmed := compiler.directPositive_congr hpositive' hvalue' hpositive
  obtain ⟨part, hpart, hparts⟩ :=
    compiler.directPositive_fansOut hdocument hstring hfields haffirmed
  have hrules (name : String) (hname : name ∈ compiler.documentFields) :
      (compiler.onField field name).directRule (x.affirmed.about name) = .ok (part name) := by
    have hrule := (compiler.onField field name).directRule_of_directPositive
      (x := x.affirmed.about name) (compiler.field?_onField name) hbound' (hparts name hname)
    have hcomplement : (x.affirmed.about name).isComplement = false := hcomplement'
    rwa [hcomplement] at hrule
  refine ⟨positive, part, ?_, ?_, ?_, ?_, hpart.holds, ?_⟩
  · rw [← hfield'] at hfield
    rw [clauseOf_eq_directRule,
      compiler.directRule_of_directPositive hfield hbound' haffirmed, hcomplement']
    rfl
  · intro name hname
    rw [clauseOf_eq_directRule]
    exact hrules name hname
  · intro hcomplement name hname
    apply compiles_of_directRule
    · exact compiler.faults_onField name hfield (compiler.faults_of_compiles h)
    · rw [← Rule.affirmed_of_not_isComplement hcomplement]
      exact hrules name hname
  · intro leaves
    exact holds_notIf _ _
  · rw [fields_notIf]
    exact hpart.fields

theorem compile_document_townful :
  (∃ clause, ∃ part : String → Clause,
    townful.Compiles ⟨"any", .notContains, some (.string "Ani")⟩ clause
      ∧ (∀ name ∈ townful.documentFields,
        (townful.onField { name := "any", type := .string } name).clauseOf
          ⟨name, .contains, some (.string "Ani")⟩ = .ok (part name))
      ∧ ∀ leaves, SearchesEach leaves →
        clause.holds leaves = !townful.documentFields.any fun name => (part name).holds leaves)
    ∧ ∃ clause, ∃ part : String → Clause,
      townful.Compiles ⟨"any", .absent, some (.bool false)⟩ clause
        ∧ (∀ name ∈ townful.documentFields,
          (townful.onField { name := "any", type := .string } name).Compiles
            ⟨name, .absent, some (.bool false)⟩ (part name))
        ∧ (∀ leaves, SearchesEach leaves →
          clause.holds leaves = townful.documentFields.any fun name => (part name).holds leaves)
        ∧ ∀ name ∈ clause.fields, name ∈ townful.documentFields
          ∨ ∃ target ∈ townful.documentFields, name = townful.keyword target
  := by
  have hfield : townful.schema.field? "any" = some { name := "any", type := .string } := rfl
  have hfields : townful.documentFields ≠ [] := List.cons_ne_nil _ _
  constructor
  · have hclause : townful.Compiles ⟨"any", .notContains, some (.string "Ani")⟩
        (.not (.queryString ["name", "town", "name"] "*ani*")) := rfl
    obtain ⟨affirmed, part, -, hpart, -, hclauses, haffirmed, -⟩ :=
      townful.compile_document hfield rfl rfl hfields rfl hclause
    refine ⟨_, part, hclause, hpart, ?_⟩
    intro leaves hleaves
    rw [hclauses, haffirmed leaves hleaves]
    exact Bool.true_xor _
  · have hclause : townful.Compiles ⟨"any", .absent, some (.bool false)⟩
        (townful.fanOut { name := "any", type := .string }
          (townful.presence { name := "any", type := .string })) := rfl
    obtain ⟨affirmed, part, -, -, hpart, hclauses, haffirmed, hnames⟩ :=
      townful.compile_document hfield rfl rfl hfields rfl hclause
    refine ⟨_, part, hclause, hpart rfl, ?_, hnames⟩
    intro leaves hleaves
    rw [hclauses, haffirmed leaves hleaves]
    exact Bool.false_xor _

end Compiler

end Sift
