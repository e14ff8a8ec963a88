import Sift.Proofs.Clause.Truth
import Sift.Proofs.Clause.Wildcard
import Sift.Proofs.Query.Faults

/-!
# Which trees can be compiled

A tree without faults that mentions no saved query is compiled, if the source answers for every
field, exactly if all its rules are `Searchable`: a search is made for text, and the pattern of a
text with wildcards is within the limit (`Compiler.compile_isOk_iff`).

A schema that gives searches to string fields only leaves no other values to be searched for
(`Rule.isText_of_faults`). One that gives a search to a boolean field lets a tree without faults
fail (`Compiler.compile_searched_flag`).
-/

namespace Sift

/-- There is something to make of a result exactly if there is a result. -/
theorem alone_map_isOk_iff {α β : Type} {source : ValueSource} {x : Compiling α}
    (hx : Steady source x) (f : α → β) :
  (∃ b, alone (x >>= fun a => pure (f a)) = .ok b) ↔ ∃ a, alone x = .ok a
  := by
  rw [(steady_bind hx fun a => steady_pure (f a)).2]
  cases alone x with
  | error e =>
    constructor
    · rintro ⟨_, ⟨⟩⟩
    · rintro ⟨_, ⟨⟩⟩
  | ok a => exact ⟨fun _ => ⟨a, rfl⟩, fun _ => ⟨f a, rfl⟩⟩

/-- A value without faults of an operator that is no search is a term. -/
theorem toTerm?_of_valueFaults {field : Field} {operator : Operator} {value : Value}
    (h : valueFaults field operator value = []) (hsearch : operator.takesRegex = false) :
  ∃ term, value.toTerm? = some term
  := by
  have haccepts := accepts_of_valueFaults h
  cases value with
  | string s => exact ⟨.string s, rfl⟩
  | number x => exact ⟨.number x, rfl⟩
  | bool b => exact ⟨.bool b, rfl⟩
  | list items => simp [FieldType.accepts] at haccepts
  | regex pattern ignoreCase => simp [FieldType.accepts, hsearch] at haccepts

/-! ### Rules that are searches -/

/-- Whether a value is a text to search for. -/
def Value.isText : Value → Bool
  | .string _ | .regex .. => true
  | _ => false

/-- A rule that is no search, or a search for a text whose pattern is within the limit. -/
structure Rule.Searchable (x : Rule) : Prop where
  isText : x.operator.takesRegex = true → ∀ value, x.value = some value → value.isText = true
  fits : x.operator.positive = .like → ∀ s, x.value = some (.string s) →
    ∀ backward, Pattern.wildcardsSize backward s.toList ≤ Pattern.sizeLimit

theorem Rule.searchable_of_not_takesRegex {x : Rule} (h : x.operator.takesRegex = false) :
  x.Searchable
  := by
  rw [Operator.takesRegex, Bool.or_eq_false_iff, decide_eq_false_iff_not,
    decide_eq_false_iff_not] at h
  constructor
  · intro hsearch
    simp [Operator.takesRegex, h] at hsearch
  · intro hlike
    exact absurd hlike h.2

/-- A search is searchable by what its value is. -/
theorem Rule.searchable_iff {x : Rule} {value : Value} (hsearch : x.operator.takesRegex = true)
    (hvalue : x.value = some value) :
  x.Searchable ↔ value.isText = true ∧ (x.operator.positive = .like → ∀ s, value = .string s →
    ∀ backward, Pattern.wildcardsSize backward s.toList ≤ Pattern.sizeLimit)
  := by
  constructor
  · rintro ⟨htext, hfits⟩
    refine ⟨htext hsearch value hvalue, fun hlike s hs => hfits hlike s ?_⟩
    rw [hvalue, hs]
  · rintro ⟨htext, hfits⟩
    constructor
    · rintro - _ hother
      rw [hvalue, Option.some.injEq] at hother
      rwa [← hother]
    · intro hlike s hs
      rw [hvalue, Option.some.injEq] at hs
      exact hfits hlike s hs

/-- An operator that sets no bound is one of five, or the complement of one. -/
theorem Operator.positive_cases {operator : Operator}
    (h : Bound.ofOperator? operator = none) :
  operator.positive = .present ∨ operator.positive = .eq ∨ operator.positive = .isIn
    ∨ operator.positive = .contains ∨ operator.positive = .like
  := by
  cases operator with
  | gt | gte | lt | lte => cases h
  | _ => simp [positive]

theorem positive_ne_of_search {operator : Operator} (h : operator.takesRegex = true) :
  operator.positive ≠ .present ∧ operator.positive ≠ .isIn
  := by
  constructor
  · intro hpresent
    simp [Operator.takesRegex, hpresent] at h
  · intro hin
    simp [Operator.takesRegex, hin] at h

theorem takesRegex_of_bound {operator : Operator} {bound : Bound}
    (h : Bound.ofOperator? operator = some bound) :
  operator.takesRegex = false
  := by
  cases operator with
  | gt | gte | lt | lte => rfl
  | _ => cases h

theorem positive_ne_of_bound {operator : Operator} {bound : Bound}
    (h : Bound.ofOperator? operator = some bound) :
  operator.positive ≠ .present ∧ operator.positive ≠ .isIn
  := by
  cases operator with
  | gt | gte | lt | lte => simp [Operator.positive]
  | _ => cases h

namespace Compiler

variable (compiler : Compiler)

/-! ### Rules that are no searches -/

/-- A test for exact values is compiled if the source answers. -/
theorem exists_alone_exact (hsource : ∀ field, ∃ values, compiler.source field = .ok values)
    (field : Field) (values : List Value) :
  ∃ clause, alone (compiler.exact field values) = .ok clause
  := by
  rw [exact]
  split
  case isTrue =>
    obtain ⟨hsteady, halone⟩ := steady_mapM fun target (_ : target ∈ compiler.targets field) =>
      compiler.steady_reconcile ((values.filterMap Value.string?).map Text.lowercase) target
    rw [alone_map_isOk_iff hsteady, halone, mapM_isOk_iff]
    intro target _
    obtain ⟨hstored, hanswer⟩ := compiler.steady_storedValues (compiler.keyword target)
    obtain ⟨stored, hvalues⟩ := hsource (compiler.keyword target)
    rw [reconcile, alone_map_isOk_iff hstored, hanswer, hvalues]
    exact ⟨stored, rfl⟩
  case isFalse => exact ⟨_, rfl⟩

/-! ### Rules that are searches -/

/-- A match is compiled exactly if its pattern can be written for the engine. -/
theorem matching_isOk_iff (field : Field) (pattern : String) (ignoreCase : Bool) :
  (∃ clause, alone (liftM (compiler.matching field pattern ignoreCase) : Compiling Clause)
      = .ok clause)
    ↔ ∃ converted, Pattern.toEngine pattern ignoreCase = .ok converted
  := by
  have hlift (x : Except CompileError Clause) :
      Steady compiler.source (liftM x : Compiling Clause)
        ∧ alone (liftM x : Compiling Clause) = x := steady_liftM x
  rw [(hlift _).2, matching]
  cases Pattern.toEngine pattern ignoreCase <;> simp

variable {field : Field} {x : Rule} {value : Value}

/-- A search for words is always compiled, one for a regex without faults too, and there is none
for other values. -/
theorem contains_isOk_iff (hcontains : x.operator.positive = .contains)
    (hvalue : x.value = some value) (hfaults : valueFaults field x.operator value = []) :
  (∃ clause, alone (compiler.positiveClause field x) = .ok clause) ↔ value.isText = true
  := by
  rw [positiveClause]
  simp only [hcontains, hvalue]
  cases value with
  | string s => exact ⟨fun _ => rfl, fun _ => ⟨_, rfl⟩⟩
  | regex pattern ignoreCase =>
    rw [matching_isOk_iff]
    exact ⟨fun _ => rfl, fun _ => toEngine_of_valueFaults hfaults⟩
  | number _ | bool _ | list _ =>
    constructor
    · rintro ⟨_, ⟨⟩⟩
    · rintro ⟨⟩

/-- A match with a text with wildcards is compiled if its pattern is within the limit. -/
theorem like_isOk_iff (hlike : x.operator.positive = .like)
    (hvalue : x.value = some value) (hfaults : valueFaults field x.operator value = []) :
  (∃ clause, alone (compiler.positiveClause field x) = .ok clause)
    ↔ value.isText = true ∧ ∀ s, value = .string s →
      ∀ backward, Pattern.wildcardsSize backward s.toList ≤ Pattern.sizeLimit
  := by
  rw [positiveClause]
  simp only [hlike, hvalue]
  cases value with
  | string s =>
    rw [matching_isOk_iff, Pattern.toEngine_likePattern_iff]
    simp [Value.isText]
  | regex pattern ignoreCase =>
    rw [matching_isOk_iff]
    refine ⟨fun _ => ⟨rfl, ?_⟩, fun _ => toEngine_of_valueFaults hfaults⟩
    rintro _ ⟨⟩
  | number _ | bool _ | list _ =>
    constructor
    · rintro ⟨_, ⟨⟩⟩
    · rintro ⟨⟨⟩, -⟩

/-- A rule without faults that sets no bound has a positive clause exactly if it is
searchable. -/
theorem positiveClause_isOk_iff
    (hsource : ∀ field, ∃ values, compiler.source field = .ok values)
    (hfaults : operandFaults field x = []) (hbound : Bound.ofOperator? x.operator = none) :
  (∃ clause, alone (compiler.positiveClause field x) = .ok clause) ↔ x.Searchable
  := by
  have hplain (hsearch : x.operator.takesRegex = false)
      (h : ∃ clause, alone (compiler.positiveClause field x) = .ok clause) :
      (∃ clause, alone (compiler.positiveClause field x) = .ok clause) ↔ x.Searchable :=
    ⟨fun _ => Rule.searchable_of_not_takesRegex hsearch, fun _ => h⟩
  obtain hpresent | heq | hin | hcontains | hlike := Operator.positive_cases hbound
  · apply hplain (by simp [Operator.takesRegex, hpresent])
    rw [positiveClause]
    simp only [hpresent]
    exact ⟨_, rfl⟩
  · obtain ⟨value, hvalue, -⟩ :=
      exists_value_of_operandFaults hfaults (by simp [heq]) (by simp [heq])
    apply hplain (by simp [Operator.takesRegex, heq])
    rw [positiveClause]
    simp only [heq, hvalue]
    apply compiler.exists_alone_exact hsource
  · obtain ⟨items, hvalue⟩ := exists_items_of_operandFaults hfaults hin
    apply hplain (by simp [Operator.takesRegex, hin])
    rw [positiveClause]
    simp only [hin, hvalue]
    apply compiler.exists_alone_exact hsource
  · obtain ⟨value, hvalue, hfaults⟩ :=
      exists_value_of_operandFaults hfaults (by simp [hcontains]) (by simp [hcontains])
    rw [compiler.contains_isOk_iff hcontains hvalue hfaults,
      Rule.searchable_iff (by simp [Operator.takesRegex, hcontains]) hvalue]
    simp [hcontains]
  · obtain ⟨value, hvalue, hfaults⟩ :=
      exists_value_of_operandFaults hfaults (by simp [hlike]) (by simp [hlike])
    rw [compiler.like_isOk_iff hlike hvalue hfaults,
      Rule.searchable_iff (by simp [Operator.takesRegex, hlike]) hvalue]
    simp [hlike]

/-! ### Rules -/

/-- A rule without faults has a clause exactly if it is searchable. -/
theorem clauseOf_isOk_iff (hsource : ∀ field, ∃ values, compiler.source field = .ok values)
    (hfaults : x.faults compiler.schema = []) :
  (∃ clause, compiler.clauseOf x = .ok clause) ↔ x.Searchable
  := by
  obtain ⟨field, hfield, -, hoperand⟩ := Rule.exists_field_of_faults hfaults
  rw [clauseOf, rule]
  cases hbound : Bound.ofOperator? x.operator with
  | some bound =>
    obtain ⟨value, hvalue, hvalueFaults⟩ := exists_value_of_operandFaults hoperand
      (positive_ne_of_bound hbound).1 (positive_ne_of_bound hbound).2
    have hsearch := takesRegex_of_bound hbound
    obtain ⟨term, hterm⟩ := toTerm?_of_valueFaults hvalueFaults hsearch
    simp only [hfield, hvalue, Option.bind_some, hterm]
    exact ⟨fun _ => Rule.searchable_of_not_takesRegex hsearch, fun _ => ⟨_, rfl⟩⟩
  | none =>
    simp only [hfield]
    rw [alone_map_isOk_iff (compiler.steady_positiveClause field x),
      compiler.positiveClause_isOk_iff hsource hoperand hbound]

end Compiler

/-! ### Trees -/

namespace Compiler

variable (compiler : Compiler)

/-- A tree without mentions, whose rules have no faults, has a clause exactly if all its rules are
searchable. -/
theorem query_isOk_iff (hsource : ∀ field, ∃ values, compiler.source field = .ok values)
    {q : Query} (hreferences : q.references = [])
    (hfaults : ∀ x origin, .rule x origin ∈ q.nodes → x.faults compiler.schema = []) :
  (∃ clause, alone (compiler.query q) = .ok clause)
    ↔ ∀ x origin, .rule x origin ∈ q.nodes → x.Searchable
  := by
  induction q with
  | rule x origin =>
    have hx : x.faults compiler.schema = [] := hfaults x origin (by simp [Query.nodes])
    rw [query, ← clauseOf, compiler.clauseOf_isOk_iff hsource hx]
    simp [Query.nodes]
  | group condition negated children origin ih =>
    have hchild (child : Query) (h : child ∈ children) :
        (∃ clause, alone (compiler.query child) = .ok clause)
          ↔ ∀ x origin, .rule x origin ∈ child.nodes → x.Searchable := by
      apply ih child h
      · exact Query.references_group_eq_nil_iff.mp hreferences child h
      · intro x origin hx
        exact hfaults x origin (Query.rule_mem_nodes_group.mpr ⟨child, h, hx⟩)
    obtain ⟨hsteady, halone⟩ := steady_mapM fun q (_ : q ∈ children) => compiler.steady_query q
    rw [query, queries_eq_mapM, alone_map_isOk_iff hsteady, halone, mapM_isOk_iff]
    simp only [Query.rule_mem_nodes_group]
    constructor
    · rintro h x origin' ⟨child, hmem, hx⟩
      exact (hchild child hmem).mp (h child hmem) x origin' hx
    · intro h child hmem
      exact (hchild child hmem).mpr fun x origin' hx => h x origin' ⟨child, hmem, hx⟩
  | reference ref => exact absurd hreferences (Query.references_reference_ne_nil ref)

/-- A tree without faults that mentions no saved query results in what its nodes result in. -/
theorem compile_eq_alone {q : Query} (hreferences : q.references = [])
    (hfaults : q.faults compiler.schema [] = []) :
  (compiler.compile q).1 = alone (compiler.query q)
  := by
  change alone (compiler.compiling q) = _
  rw [compiling]
  simp only [hreferences, hfaults]

/-- A tree without faults that mentions no saved query is compiled, if the source answers for
every field, exactly if all its rules are searchable: it searches for nothing but text, and the
pattern of each text with wildcards is within the limit. -/
theorem compile_isOk_iff (hsource : ∀ field, ∃ values, compiler.source field = .ok values)
    {q : Query} (hreferences : q.references = []) (hfaults : q.faults compiler.schema [] = []) :
  (∃ clause, (compiler.compile q).1 = .ok clause)
    ↔ ∀ x origin, .rule x origin ∈ q.nodes → x.Searchable
  := by
  rw [compiler.compile_eq_alone hreferences hfaults]
  apply compiler.query_isOk_iff hsource hreferences
  intro x origin hx
  exact Query.rule_faults_of_faults hfaults hx

/-- A compiler for a schema that gives a search to a boolean field. -/
def searchedFlags : Compiler where
  schema.fields := Table.ofList [("active", { name := "active", type := .boolean }),
    ("name", { name := "name", type := .string })]
  schema.operatorMap := some (Table.ofList [("boolean", [.eq, .contains])])
  source := fun _ => .ok ["Ani", "Bo"]

/-- A tree in which each search is for a text, and a flag is tested for its value. -/
def textSearches : Query :=
  .group .or true
    [.ofRule ⟨"name", .notLike, some (.string "a?%")⟩,
      .ofRule ⟨"name", .contains, some (.regex "i$" true)⟩,
      .ofRule ⟨"active", .eq, some (.bool true)⟩] {}

theorem compile_isOk_textSearches :
  ∃ clause, (searchedFlags.compile textSearches).1 = .ok clause
  := by
  rw [searchedFlags.compile_isOk_iff (fun _ => ⟨_, rfl⟩) (by decide +kernel) (by decide +kernel)]
  intro x origin hx
  rw [textSearches, Query.rule_mem_nodes_group] at hx
  simp only [Query.ofRule, List.mem_cons, List.not_mem_nil, or_false, exists_eq_or_imp,
    exists_eq_left, Query.nodes, Query.rule.injEq] at hx
  obtain ⟨rfl, -⟩ | ⟨rfl, -⟩ | ⟨rfl, -⟩ := hx
  · rw [Rule.searchable_iff rfl rfl]
    refine ⟨rfl, ?_⟩
    rintro - _ ⟨⟩ backward
    apply (Pattern.wildcardsSize_le backward _).trans
    decide
  · rw [Rule.searchable_iff rfl rfl]
    refine ⟨rfl, ?_⟩
    rintro - _ ⟨⟩
  · exact Rule.searchable_of_not_takesRegex rfl

/-- A search of a flag for a truth value has no faults, but there is no clause for it. -/
theorem compile_searched_flag :
  (Query.ofRule ⟨"active", .contains, some (.bool true)⟩).references = []
    ∧ (Query.ofRule ⟨"active", .contains, some (.bool true)⟩).faults searchedFlags.schema [] = []
    ∧ (∀ field, ∃ values, searchedFlags.source field = .ok values)
    ∧ (searchedFlags.compile (.ofRule ⟨"active", .contains, some (.bool true)⟩)).1
      = .error (.unsupported (.malformedValue "active contains bool"))
  := ⟨by decide +kernel, by decide +kernel, fun _ => ⟨_, rfl⟩, rfl⟩

end Compiler

/-! ### Schemas that give searches to strings only -/

/-- A schema in which every field with a search is a string. -/
def Schema.SearchesStrings (schema : Schema) : Prop :=
  ∀ name field, schema.field? name = some field → ∀ operator ∈ schema.operatorsFor field,
    operator.takesRegex = true → field.type = .string

/-- Only strings have searches when a schema says nothing else. -/
theorem FieldType.takesRegex_of_ne_string {type : FieldType} (h : type ≠ .string) :
  ∀ operator ∈ type.operators, operator.takesRegex = false
  := by
  cases type with
  | string => exact absurd rfl h
  | number | boolean | date => decide

/-- A schema that leaves the operators to the types gives searches to strings only. -/
theorem Schema.searchesStrings_of_default {schema : Schema} (hmap : schema.operatorMap = none)
    (hfields : ∀ name field, schema.field? name = some field → field.operators = []) :
  schema.SearchesStrings
  := by
  intro name field hfield operator hoperator hsearch
  have hdefault : operator ∈ field.type.operators := by
    simp only [operatorsFor, hfields name field hfield, typeOperators, hmap] at hoperator
    split_ifs at hoperator
    · contradiction
    · exact hoperator
    · exact List.mem_of_mem_filter hoperator
  by_contra htype
  rw [FieldType.takesRegex_of_ne_string htype operator hdefault] at hsearch
  cases hsearch

/-- Under a schema that gives searches to strings only, a rule without faults searches for text. -/
theorem Rule.isText_of_faults {schema : Schema} {x : Rule} (hschema : schema.SearchesStrings)
    (hfaults : x.faults schema = []) (hsearch : x.operator.takesRegex = true) :
  ∃ value, x.value = some value ∧ value.isText = true
  := by
  obtain ⟨field, hfield, hallowed, hoperand⟩ := exists_field_of_faults hfaults
  obtain ⟨hpresent, hin⟩ := positive_ne_of_search hsearch
  obtain ⟨value, hvalue, hvalueFaults⟩ :=
    exists_value_of_operandFaults hoperand hpresent hin
  have haccepts := accepts_of_valueFaults hvalueFaults
  rw [hschema x.field field hfield x.operator hallowed hsearch] at haccepts
  use value, hvalue
  cases value with
  | string _ | regex _ _ => rfl
  | number _ | bool _ | list _ => cases haccepts

/-- Under such a schema a tree without faults that mentions no saved query is compiled, if the
source answers for every field and no string has more than ten thousand characters. -/
theorem Compiler.compile_isOk_of_searchesStrings (compiler : Compiler)
    (hschema : compiler.schema.SearchesStrings)
    (hsource : ∀ field, ∃ values, compiler.source field = .ok values)
    {q : Query} (hreferences : q.references = []) (hfaults : q.faults compiler.schema [] = [])
    (hshort : ∀ x origin s, .rule x origin ∈ q.nodes → x.value = some (.string s) →
      s.length ≤ 10000) :
  ∃ clause, (compiler.compile q).1 = .ok clause
  := by
  have hrules {x : Rule} {origin : Origin} (hx : .rule x origin ∈ q.nodes) :=
    Query.rule_faults_of_faults hfaults hx
  rw [compiler.compile_eq_alone hreferences hfaults,
    compiler.query_isOk_iff hsource hreferences fun x origin hx => hrules hx]
  intro x origin hx
  constructor
  · intro hsearch value hvalue
    obtain ⟨value', hvalue', htext⟩ := Rule.isText_of_faults hschema (hrules hx) hsearch
    rw [hvalue, Option.some.injEq] at hvalue'
    rwa [hvalue']
  · intro _ s hvalue backward
    have hlength := hshort x origin s hx hvalue
    rw [← String.length_toList] at hlength
    apply (Pattern.wildcardsSize_le backward s.toList).trans
    rw [Pattern.sizeLimit]
    omega

end Sift
