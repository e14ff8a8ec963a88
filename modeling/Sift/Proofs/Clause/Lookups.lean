import Sift.Proofs.Clause.Support

/-!
# What a compilation asks for

`Compiler.neededFields` are the keyword fields of the tests for exact values in a tree, each once,
in the order of the tree. A compilation asks for these one after the other until the source fails
(`Asks`), and what it makes of the answers is what it would make without remembering any of them
(`Compiler.alone_query`). `Compiler.compile_neededFields` puts both together: the result of a
compilation, and the fields that were asked for up to the first failure.
-/

namespace Sift

/-! ### Names without repetitions -/

namespace Query

theorem distinct_concat (names : List String) (name : String) :
  distinct (names ++ [name])
    = if name ∈ distinct names then distinct names else distinct names ++ [name]
  := by
  simp [distinct]

theorem nodup_distinct (names : List String) :
  (distinct names).Nodup
  := by
  induction names using List.reverseRecOn with
  | nil => exact List.nodup_nil
  | append_singleton names name ih =>
    rw [distinct_concat]
    split
    case isTrue => exact ih
    case isFalse h =>
      rw [← List.concat_eq_append]
      exact ih.concat h

end Query

/-! ### Asking for several fields -/

namespace Memo

variable {source : ValueSource} {memo : Memo} {field : String} {fields : List String}

/-- Asks for some fields, one after the other, until the source fails. -/
def askAll (source : ValueSource) : List String → Memo → Except LookupError Unit × Memo
  | [], memo => (.ok (), memo)
  | field :: rest, memo =>
    match memo.values source field with
    | (.ok _, memo) => askAll source rest memo
    | (.error e, memo) => (.error e, memo)

theorem askAll_append (fields others : List String) (memo : Memo) :
  askAll source (fields ++ others) memo = match askAll source fields memo with
    | (.ok (), memo) => askAll source others memo
    | (.error e, memo) => (.error e, memo)
  := by
  induction fields generalizing memo with
  | nil => rfl
  | cons field rest ih =>
    rw [List.cons_append, askAll, askAll]
    split
    · apply ih
    · rfl

/-- A memo that knows exactly the fields that were asked for. -/
structure HasAsked (memo : Memo) (fields : List String) : Prop where
  asked : memo.asked = fields
  known : ∀ field, (memo.known.get? field).isSome = true ↔ field ∈ fields

theorem hasAsked_empty :
  HasAsked {} []
  := ⟨rfl, fun field => by simp⟩

/-- A field that was asked for is not asked for again. -/
theorem HasAsked.askAll_known (h : memo.HasAsked fields) (hmem : field ∈ fields) :
  askAll source [field] memo = (.ok (), memo)
  := by
  obtain ⟨values, hvalues⟩ := Option.isSome_iff_exists.mp ((h.known field).mpr hmem)
  rw [askAll, Memo.values, hvalues]
  rfl

theorem HasAsked.get?_eq_none (h : memo.HasAsked fields) (hmem : field ∉ fields) :
  memo.known.get? field = none
  := by
  rw [← Option.not_isSome_iff_eq_none, h.known]
  exact hmem

/-- A field that is asked for and answered is known. -/
theorem HasAsked.askAll_answered (h : memo.HasAsked fields) (hmem : field ∉ fields)
    {values : List String} (hanswer : source field = .ok values) :
  ∃ after, askAll source [field] memo = (.ok (), after) ∧ after.HasAsked (fields ++ [field])
  := by
  refine ⟨{ known := memo.known.insert field values, asked := memo.asked ++ [field] }, ?_, ?_, ?_⟩
  · rw [askAll, Memo.values, h.get?_eq_none hmem, hanswer]
    rfl
  · rw [h.asked]
  · intro other
    rw [Table.get?_insert, List.mem_append, List.mem_singleton, ← h.known]
    split
    case isTrue heq => simp [heq]
    case isFalse hne => simp [Ne.symm hne]

/-- A field for which the source fails is asked for, and nothing after it. -/
theorem HasAsked.askAll_failed (h : memo.HasAsked fields) (hmem : field ∉ fields)
    {e : LookupError} (hfailure : source field = .error e) :
  ∃ after, askAll source [field] memo = (.error e, after) ∧ after.asked = fields ++ [field]
  := by
  refine ⟨{ memo with asked := memo.asked ++ [field] }, ?_, ?_⟩
  · rw [askAll, Memo.values, h.get?_eq_none hmem, hfailure]
  · rw [h.asked]

/-- If the source answers for all fields, each of them is asked for once, in order. -/
theorem askAll_of_answered {names : List String}
    (h : ∀ field ∈ Query.distinct names, ∃ values, source field = .ok values) :
  ∃ after, askAll source names {} = (.ok (), after) ∧ after.HasAsked (Query.distinct names)
  := by
  induction names using List.reverseRecOn with
  | nil => exact ⟨{}, rfl, hasAsked_empty⟩
  | append_singleton names name ih =>
    rw [Query.distinct_concat] at h ⊢
    rw [askAll_append]
    split at h
    case isTrue hmem =>
      obtain ⟨after, hafter, hasked⟩ := ih h
      rw [hafter, if_pos hmem]
      exact ⟨after, hasked.askAll_known hmem, hasked⟩
    case isFalse hmem =>
      obtain ⟨after, hafter, hasked⟩ := ih fun field hfield => h field (by simp [hfield])
      obtain ⟨values, hvalues⟩ := h name (by simp)
      rw [hafter, if_neg hmem]
      exact hasked.askAll_answered hmem hvalues

/-- If the source fails for a field, each field up to this one is asked for once, in order. -/
theorem askAll_of_failed {names asked rest : List String} {e : LookupError}
    (hnames : Query.distinct names = asked ++ field :: rest)
    (h : ∀ other ∈ asked, ∃ values, source other = .ok values)
    (hfailure : source field = .error e) :
  ∃ after, askAll source names {} = (.error e, after) ∧ after.asked = asked ++ [field]
  := by
  induction names using List.reverseRecOn generalizing rest with
  | nil => simp [Query.distinct] at hnames
  | append_singleton names name ih =>
    have hearlier {others : List String}
        (hothers : Query.distinct names = asked ++ field :: others) :
        ∃ after, askAll source (names ++ [name]) {} = (.error e, after)
          ∧ after.asked = asked ++ [field] := by
      obtain ⟨after, hafter, hasked⟩ := ih hothers
      rw [askAll_append, hafter]
      exact ⟨after, rfl, hasked⟩
    rw [Query.distinct_concat] at hnames
    split at hnames
    case isTrue => exact hearlier hnames
    case isFalse hmem =>
      obtain rfl | ⟨others, last, rfl⟩ := List.eq_nil_or_concat rest
      · obtain ⟨hfields, hname⟩ := List.append_inj' hnames rfl
        cases hname
        rw [← hfields] at h ⊢
        obtain ⟨after, hafter, hasked⟩ := askAll_of_answered h
        rw [askAll_append, hafter]
        exact hasked.askAll_failed hmem hfailure
      · rw [List.concat_eq_append, ← List.cons_append, ← List.append_assoc] at hnames
        exact hearlier (List.append_inj' hnames rfl).1

end Memo

/-! ### Compilations that ask for fields -/

variable {α β : Type} {source : ValueSource} {fields others : List String}

/-- A compilation that asks for some fields, one after the other, and has a result if they are
answered, or else fails with the failure of the source. -/
def Asks (source : ValueSource) (fields : List String) (x : Compiling α) : Prop :=
  ∀ memo : Memo, match Memo.askAll source fields memo with
    | (.ok (), after) => ∃ a, (x.run.run memo).run = (.ok a, after)
    | (.error e, after) => (x.run.run memo).run = (.error (.lookup e), after)

theorem asks_pure (a : α) :
  Asks source [] (pure a : Compiling α)
  := fun _ => ⟨a, rfl⟩

theorem asks_liftM {x : Except CompileError α} (h : ∃ a, x = .ok a) :
  Asks source [] (liftM x : Compiling α)
  := by
  obtain ⟨a, rfl⟩ := h
  intro memo
  exact ⟨a, rfl⟩

/-- One compilation after another asks for the fields of both. -/
theorem asks_bind {x : Compiling α} {f : α → Compiling β} (hx : Asks source fields x)
    (hf : ∀ a, Asks source others (f a)) :
  Asks source (fields ++ others) (x >>= f)
  := by
  intro memo
  have hfirst := hx memo
  rw [Memo.askAll_append, run_run_bind]
  rcases hask : Memo.askAll source fields memo with ⟨e | _, after⟩
  · rw [hask] at hfirst
    rw [hfirst]
  · rw [hask] at hfirst
    obtain ⟨a, ha⟩ := hfirst
    rw [ha]
    exact hf a after

/-- What is made of a result asks for nothing more. -/
theorem asks_map {x : Compiling α} (hx : Asks source fields x) (f : α → β) :
  Asks source fields (x >>= fun a => pure (f a))
  := by
  have h := asks_bind hx fun a => asks_pure (f a)
  rwa [List.append_nil] at h

/-- A compilation of each item of a list asks for the fields of all of them. -/
theorem asks_mapM {f : α → Compiling β} {items : List α} {fieldsOf : α → List String}
    (h : ∀ a ∈ items, Asks source (fieldsOf a) (f a)) :
  Asks source (items.flatMap fieldsOf) (items.mapM f)
  := by
  induction items with
  | nil => exact asks_pure []
  | cons item rest ih =>
    rw [List.mapM_cons, List.flatMap_cons]
    apply asks_bind (h item (by simp))
    intro b
    exact asks_map (ih fun a ha => h a (by simp [ha])) _

/-- A test by order picks no option. -/
theorem picksOption_of_bound {operator : Operator} {bound : Bound}
    (h : Bound.ofOperator? operator = some bound) :
  operator.picksOption = false
  := by
  cases operator with
  | gt | gte | lt | lte => rfl
  | _ => cases h

namespace Compiler

variable (compiler : Compiler)

/-! ### Fields that are needed -/

/-- The keyword fields of which a test for exact values needs the stored values. -/
def exactFields (field : Field) : List String :=
  if field.type = .string then (compiler.targets field).map compiler.keyword else []

/-- The keyword fields of which a rule needs the stored values. -/
def ruleFields (x : Rule) : List String :=
  match compiler.schema.field? x.field with
  | none => []
  | some field => if x.operator.picksOption then compiler.exactFields field else []

/-- The keyword fields of which the rules of a tree need the stored values, in order. -/
def fieldsOf (q : Query) : List String :=
  q.nodes.flatMap fun
    | .rule x _ => compiler.ruleFields x
    | _ => []

/-- The keyword fields of which a tree needs the stored values, each once, in order. -/
def neededFields (q : Query) : List String :=
  Query.distinct (compiler.fieldsOf q)

theorem fieldsOf_group {condition : Condition} {negated : Bool} {children : List Query}
    {origin : Origin} :
  compiler.fieldsOf (.group condition negated children origin)
    = children.flatMap compiler.fieldsOf
  := by
  simp only [fieldsOf, Query.nodes, Query.nodesOfAll_eq_flatMap, List.flatMap_cons,
    List.nil_append, List.flatMap_assoc]
  rfl

/-! ### Fields that are asked for -/

theorem asks_storedValues (field : String) :
  Asks compiler.source [field] (compiler.storedValues field)
  := by
  intro memo
  have hrun : ((compiler.storedValues field).run.run memo).run
      = ((memo.values compiler.source field).1.mapError .lookup,
        (memo.values compiler.source field).2) := rfl
  rw [Memo.askAll, hrun]
  rcases memo.values compiler.source field with ⟨e | values, after⟩
  · rfl
  · exact ⟨values, rfl⟩

theorem asks_reconcile (wanted : List String) (target : String) :
  Asks compiler.source [compiler.keyword target] (compiler.reconcile wanted target)
  := asks_map (compiler.asks_storedValues _) _

/-- A test of a string for exact values asks for all fields on which it is made. -/
theorem asks_exact (field : Field) (values : List Value) :
  Asks compiler.source (compiler.exactFields field) (compiler.exact field values)
  := by
  rw [exact, exactFields]
  split
  case isTrue =>
    rw [← List.flatMap_pure_eq_map]
    apply asks_map
    apply asks_mapM
    intro target _
    exact compiler.asks_reconcile _ target
  case isFalse => exact asks_pure _

/-- A match with a pattern that can be written for the engine asks for nothing. -/
theorem asks_matching {field : Field} {pattern : String} {ignoreCase : Bool}
    (h : ∃ converted, Pattern.toEngine pattern ignoreCase = .ok converted) :
  Asks compiler.source []
    (liftM (compiler.matching field pattern ignoreCase) : Compiling Clause)
  := by
  obtain ⟨converted, hconverted⟩ := h
  apply asks_liftM
  rw [matching, hconverted]
  exact ⟨_, rfl⟩

/-- A searchable rule without faults that sets no bound asks for the fields that it needs. -/
theorem asks_positiveClause {field : Field} {x : Rule} (hfaults : operandFaults field x = [])
    (hbound : Bound.ofOperator? x.operator = none) (hx : x.Searchable) :
  Asks compiler.source (if x.operator.picksOption then compiler.exactFields field else [])
    (compiler.positiveClause field x)
  := by
  rw [positiveClause]
  obtain hpresent | heq | hin | hcontains | hlike := Operator.positive_cases hbound
  · simp only [hpresent, Operator.picksOption]
    exact asks_pure _
  · obtain ⟨value, hvalue, -⟩ :=
      exists_value_of_operandFaults hfaults (by simp [heq]) (by simp [heq])
    have hpicks : x.operator.picksOption = true := by simp [Operator.picksOption, heq]
    simp only [heq, hvalue, hpicks, if_true]
    exact compiler.asks_exact field [value]
  · obtain ⟨items, hvalue⟩ := exists_items_of_operandFaults hfaults hin
    have hpicks : x.operator.picksOption = true := by simp [Operator.picksOption, hin]
    simp only [hin, hvalue, hpicks, if_true]
    exact compiler.asks_exact field items
  · obtain ⟨value, hvalue, hvalueFaults⟩ :=
      exists_value_of_operandFaults hfaults (by simp [hcontains]) (by simp [hcontains])
    have htext := hx.isText (by simp [Operator.takesRegex, hcontains]) value hvalue
    simp only [hcontains, hvalue, Operator.picksOption]
    cases value with
    | string s => exact asks_pure _
    | regex pattern ignoreCase =>
      exact compiler.asks_matching (toEngine_of_valueFaults hvalueFaults)
    | number _ | bool _ | list _ => cases htext
  · obtain ⟨value, hvalue, hvalueFaults⟩ :=
      exists_value_of_operandFaults hfaults (by simp [hlike]) (by simp [hlike])
    have htext := hx.isText (by simp [Operator.takesRegex, hlike]) value hvalue
    have hfits := hx.fits hlike
    simp only [hlike, hvalue, Operator.picksOption]
    cases value with
    | string s =>
      apply compiler.asks_matching
      rw [Pattern.toEngine_likePattern_iff]
      exact hfits s hvalue
    | regex pattern ignoreCase =>
      exact compiler.asks_matching (toEngine_of_valueFaults hvalueFaults)
    | number _ | bool _ | list _ => cases htext

/-- A searchable rule without faults asks for the fields that it needs. -/
theorem asks_rule {x : Rule} (hfaults : x.faults compiler.schema = []) (hx : x.Searchable) :
  Asks compiler.source (compiler.ruleFields x) (compiler.rule x)
  := by
  obtain ⟨field, hfield, -, hoperand⟩ := Rule.exists_field_of_faults hfaults
  rw [ruleFields, rule]
  cases hbound : Bound.ofOperator? x.operator with
  | some bound =>
    obtain ⟨value, hvalue, hvalueFaults⟩ := exists_value_of_operandFaults hoperand
      (positive_ne_of_bound hbound).1 (positive_ne_of_bound hbound).2
    obtain ⟨term, hterm⟩ := toTerm?_of_valueFaults hvalueFaults (takesRegex_of_bound hbound)
    simp only [hfield, hvalue, Option.bind_some, hterm, picksOption_of_bound hbound]
    exact asks_pure _
  | none =>
    simp only [hfield]
    exact asks_map (compiler.asks_positiveClause hoperand hbound hx) _

/-- A tree of searchable rules without faults asks for the fields that its rules need. -/
theorem asks_query {q : Query} (hreferences : q.references = [])
    (hfaults : ∀ x origin, .rule x origin ∈ q.nodes → x.faults compiler.schema = [])
    (hrules : ∀ x origin, .rule x origin ∈ q.nodes → x.Searchable) :
  Asks compiler.source (compiler.fieldsOf q) (compiler.query q)
  := by
  induction q with
  | rule x origin =>
    have hfields : compiler.fieldsOf (.rule x origin) = compiler.ruleFields x := by
      simp [fieldsOf, Query.nodes]
    rw [query, hfields]
    have hmem : Query.rule x origin ∈ (Query.rule x origin).nodes := Query.mem_nodes_self _
    exact compiler.asks_rule (hfaults x origin hmem) (hrules x origin hmem)
  | group condition negated children origin ih =>
    rw [query, queries_eq_mapM, fieldsOf_group]
    apply asks_map
    apply asks_mapM
    intro child hchild
    apply ih child hchild (Query.references_group_eq_nil_iff.mp hreferences child hchild)
    · intro x origin' hx
      exact hfaults x origin' (Query.rule_mem_nodes_group.mpr ⟨child, hchild, hx⟩)
    · intro x origin' hx
      exact hrules x origin' (Query.rule_mem_nodes_group.mpr ⟨child, hchild, hx⟩)
  | reference ref => exact absurd hreferences (Query.references_reference_ne_nil ref)

/-! ### Compilation without a memo -/

/-- The test that a field has one of some values, where the source is asked on every occasion. -/
def directExact (field : Field) (values : List Value) : Except CompileError Clause :=
  if field.type = .string then do
    let wanted := (values.filterMap Value.string?).map Text.lowercase
    let clauses ← (compiler.targets field).mapM fun target => do
      let stored ← (compiler.source (compiler.keyword target)).mapError .lookup
      return reconciled (compiler.keyword target) stored wanted
    return Clause.anyOf clauses
  else return oneOf field.name (values.filterMap Value.toTerm?)

/-- The clause of a rule as if its operator were the positive one, where the source is asked on
every occasion. -/
def directPositive (field : Field) (x : Rule) : Except CompileError Clause :=
  match x.operator.positive, x.value with
  | .present, _ => return compiler.fanOut field (compiler.presence field)
  | .contains, some (.regex pattern ignoreCase) => compiler.matching field pattern ignoreCase
  | .like, some (.regex pattern ignoreCase) => compiler.matching field pattern ignoreCase
  | .contains, some (.string s) => return compiler.words field s
  | .like, some (.string s) => compiler.matching field (String.ofList (likePattern s.toList)) true
  | .eq, some value => compiler.directExact field [value]
  | .isIn, some (.list values) => compiler.directExact field values
  | _, _ => throw (unsupportedRule x)

/-- The clause of a rule, where the source is asked on every occasion. -/
def directRule (x : Rule) : Except CompileError Clause :=
  match compiler.schema.field? x.field with
  | none => throw (.unsupported (.unknownField x.field))
  | some field =>
    match Bound.ofOperator? x.operator with
    | some bound =>
      match x.value.bind Value.toTerm? with
      | some term => return .range field.name bound term
      | none => throw (.unsupported (.syntaxError 0 "value"))
    | none => do
      let clause ← compiler.directPositive field x
      return clause.notIf (x.operator.isNegative != isDenial x)

mutual

/-- The clause of a tree, where the source is asked on every occasion. -/
def direct : Query → Except CompileError Clause
  | .rule x _ => compiler.directRule x
  | .group condition negated children _ => do
    return groupClause condition negated (← directAll children)
  | .reference ref => throw (.unresolved ref.name)

/-- The clauses of some trees, where the source is asked on every occasion. -/
def directAll : List Query → Except CompileError (List Clause)
  | [] => return []
  | q :: rest => do
    let clause ← direct q
    let clauses ← directAll rest
    return clause :: clauses

end

theorem directAll_eq_mapM (children : List Query) :
  compiler.directAll children = children.mapM compiler.direct
  := by
  induction children with
  | nil => rfl
  | cons _ _ ih => rw [directAll, ih, List.mapM_cons]

theorem alone_exact (field : Field) (values : List Value) :
  alone (compiler.exact field values) = compiler.directExact field values
  := by
  rw [exact, directExact]
  split
  case isTrue =>
    have hreconcile (wanted : List String) (target : String) :
        alone (compiler.reconcile wanted target) = do
          let stored ← (compiler.source (compiler.keyword target)).mapError .lookup
          return reconciled (compiler.keyword target) stored wanted := by
      obtain ⟨hstored, hanswer⟩ := compiler.steady_storedValues (compiler.keyword target)
      rw [reconcile, (steady_bind hstored fun _ => steady_pure _).2, hanswer]
      rfl
    obtain ⟨hsteady, halone⟩ := steady_mapM fun target (_ : target ∈ compiler.targets field) =>
      compiler.steady_reconcile ((values.filterMap Value.string?).map Text.lowercase) target
    rw [(steady_bind hsteady fun _ => steady_pure _).2, halone]
    simp only [hreconcile]
    rfl
  case isFalse => rfl

theorem alone_positiveClause (field : Field) (x : Rule) :
  alone (compiler.positiveClause field x) = compiler.directPositive field x
  := by
  rw [positiveClause, directPositive]
  generalize x.operator.positive = operator, x.value = value
  cases operator with
  | eq =>
    cases value with
    | none => rfl
    | some value => exact compiler.alone_exact field [value]
  | isIn =>
    rcases value with _ | (_ | _ | _ | items | _)
    case some.list => exact compiler.alone_exact field items
    all_goals rfl
  | contains | like => rcases value with _ | (_ | _ | _ | _ | _) <;> rfl
  | _ => rfl

theorem alone_rule (x : Rule) :
  alone (compiler.rule x) = compiler.directRule x
  := by
  rw [rule, directRule]
  cases compiler.schema.field? x.field with
  | none => rfl
  | some field =>
    cases Bound.ofOperator? x.operator with
    | some bound => cases x.value.bind Value.toTerm? <;> rfl
    | none =>
      simp only
      rw [(steady_bind (compiler.steady_positiveClause field x) fun _ => steady_pure _).2,
        alone_positiveClause]
      rfl

/-- A tree is compiled to what it is compiled to without remembering any answers. -/
theorem alone_query (q : Query) :
  alone (compiler.query q) = compiler.direct q
  := by
  induction q with
  | rule x origin => exact compiler.alone_rule x
  | group condition negated children origin ih =>
    rw [alone_query_group, mapM_congr ih, direct, directAll_eq_mapM]
    cases children.mapM compiler.direct <;> rfl
  | reference ref => rfl

/-! ### Compilations -/

/-- A tree that is compiled mentions no saved query and has no faults, and its clause is the one
that is made without remembering any answers. -/
theorem compile_inv {q : Query} {clause : Clause} (h : (compiler.compile q).1 = .ok clause) :
  q.references = [] ∧ q.faults compiler.schema [] = [] ∧ compiler.direct q = .ok clause
  := by
  have hcompiling : alone (compiler.compiling q) = .ok clause := h
  rw [compiling] at hcompiling
  split at hcompiling
  case h_1 => cases hcompiling
  case h_2 hreferences =>
    split at hcompiling
    case h_1 hfaults =>
      rw [alone_query] at hcompiling
      exact ⟨hreferences, hfaults, hcompiling⟩
    case h_2 => cases hcompiling

/-- A tree of searchable rules, without faults and without mentions of saved queries, is compiled by
asking for the fields that it needs, each once and in the order of the tree. If all of them are
answered, the result is the clause that is made without remembering any answer. If not, nothing is
asked for after the first failure, which is the result. -/
theorem compile_neededFields {q : Query} (hreferences : q.references = [])
    (hfaults : q.faults compiler.schema [] = [])
    (hrules : ∀ x origin, .rule x origin ∈ q.nodes → x.Searchable) :
  (compiler.neededFields q).Nodup
    ∧ ((∀ field ∈ compiler.neededFields q, ∃ values, compiler.source field = .ok values) →
      ∃ clause, compiler.direct q = .ok clause
        ∧ compiler.compile q = (.ok clause, compiler.neededFields q))
    ∧ ∀ asked field rest e, compiler.neededFields q = asked ++ field :: rest →
      (∀ other ∈ asked, ∃ values, compiler.source other = .ok values) →
      compiler.source field = .error e →
      compiler.compile q = (.error (.lookup e), asked ++ [field])
  := by
  have hcompile : compiler.compile q
      = (((compiler.query q).run.run {}).run.1, ((compiler.query q).run.run {}).run.2.asked) := by
    rw [compile, compiling]
    simp only [hreferences, hfaults]
    rfl
  have hdirect : ((compiler.query q).run.run {}).run.1 = compiler.direct q := compiler.alone_query q
  have hasks := compiler.asks_query hreferences
    (fun x origin hx => Query.rule_faults_of_faults hfaults hx) hrules {}
  refine ⟨Query.nodup_distinct _, ?_, ?_⟩
  · intro hanswered
    obtain ⟨after, hafter, hasked⟩ := Memo.askAll_of_answered hanswered
    rw [hafter] at hasks
    obtain ⟨clause, hclause⟩ := hasks
    rw [hclause] at hcompile hdirect
    refine ⟨clause, hdirect.symm, ?_⟩
    rw [hcompile, hasked.asked, neededFields]
  · intro asked field rest e hneeded hanswered hfailure
    obtain ⟨after, hafter, hasked⟩ := Memo.askAll_of_failed hneeded hanswered hfailure
    rw [hafter] at hasks
    rw [hcompile, hasks, hasked]

/-- A compiler whose source fails for towns, for a schema with a field that stands for whole
documents. -/
def townless : Compiler where
  schema.fields := Table.ofList [("name", { name := "name", type := .string }),
    ("town", { name := "town", type := .string }), ("any", { name := "any", type := .string })]
  schema.documentField := some "any"
  source := fun field =>
    if field = "town.keyword" then .error (.failed field "timeout") else .ok ["Ani", "ANI", "Bo"]
  documentFields := ["name", "town", "name"]

/-- A tree in which the name is tested twice and the document once. -/
def namesAndTowns : Query :=
  .join .and [.ofRule ⟨"name", .like, some (.string "a?%")⟩,
    .group .or true
      [.ofRule ⟨"name", .notEq, some (.string "ani")⟩,
        .ofRule ⟨"any", .isIn, some (.list [.string "bo"])⟩] {},
    .ofRule ⟨"town", .eq, some (.string "x")⟩]

/-- A tree in which the name is tested twice. -/
def names : Query :=
  .join .or [.ofRule ⟨"name", .notEq, some (.string "ani")⟩,
    .ofRule ⟨"name", .isIn, some (.list [.string "bo", .string "c"])⟩]

theorem compile_neededFields_townless :
  townless.neededFields namesAndTowns = ["name.keyword", "town.keyword"]
    ∧ townless.compile namesAndTowns
      = (.error (.lookup (.failed "town.keyword" "timeout")), ["name.keyword", "town.keyword"])
    ∧ ∃ clause, townless.direct names = .ok clause
      ∧ townless.compile names = (.ok clause, ["name.keyword"])
  := by
  have hneeded : townless.neededFields namesAndTowns = ["name.keyword", "town.keyword"] := by
    decide +kernel
  have hnames : townless.neededFields names = ["name.keyword"] := by decide +kernel
  have hlike : Rule.Searchable ⟨"name", .like, some (.string "a?%")⟩ := by
    rw [Rule.searchable_iff rfl rfl]
    refine ⟨rfl, ?_⟩
    rintro - _ ⟨⟩ backward
    apply (Pattern.wildcardsSize_le backward _).trans
    decide
  refine ⟨hneeded, ?_, ?_⟩
  · have hrules : ∀ x origin, .rule x origin ∈ namesAndTowns.nodes → x.Searchable := by
      intro x origin hx
      simp [namesAndTowns, Query.join, Query.ofRule, Query.nodes] at hx
      obtain ⟨rfl, -⟩ | ⟨rfl, -⟩ | ⟨rfl, -⟩ | ⟨rfl, -⟩ := hx
      · exact hlike
      all_goals exact Rule.searchable_of_not_takesRegex rfl
    have hcompile := townless.compile_neededFields rfl (by decide +kernel) hrules
    apply hcompile.2.2 ["name.keyword"] "town.keyword" [] _ hneeded
    · intro other hother
      rw [List.mem_singleton.mp hother]
      exact ⟨_, rfl⟩
    · rfl
  · have hrules : ∀ x origin, .rule x origin ∈ names.nodes → x.Searchable := by
      intro x origin hx
      simp [names, Query.join, Query.ofRule, Query.nodes] at hx
      obtain ⟨rfl, -⟩ | ⟨rfl, -⟩ := hx
      all_goals exact Rule.searchable_of_not_takesRegex rfl
    have hcompile := townless.compile_neededFields rfl (by decide +kernel) hrules
    rw [hnames] at hcompile
    apply hcompile.2.1
    intro field hfield
    rw [List.mem_singleton.mp hfield]
    exact ⟨_, rfl⟩

/-- A match of the name with as many wildcards for one character as asked for. -/
def wildcards (n : Nat) : Query :=
  .ofRule ⟨"name", .like, some (.string (String.ofList (List.replicate n '?')))⟩

theorem compile_wildcards :
  (wildcards 30000).references = [] ∧ (wildcards 30000).faults spellings.schema [] = []
    ∧ (∀ x origin, .rule x origin ∈ (wildcards 30000).nodes → x.operator.takesRegex = true →
      ∀ value, x.value = some value → value.isText = true)
    ∧ (∀ field, ∃ values, spellings.source field = .ok values)
    ∧ spellings.neededFields (wildcards 30000) = []
    ∧ ∀ clause, (spellings.compile (wildcards 30000)).1 ≠ .ok clause
  := by
  have hvalue (x : Rule) (origin : Origin) (hx : .rule x origin ∈ (wildcards 30000).nodes) :
      x.value = some (.string (String.ofList (List.replicate 30000 '?'))) := by
    simp only [wildcards, Query.ofRule, Query.nodes, List.mem_singleton, Query.rule.injEq] at hx
    rw [hx.1]
  refine ⟨rfl, by decide +kernel, ?_, fun field => ⟨_, rfl⟩, by decide +kernel, ?_⟩
  · intro x origin hx _ value hsome
    rw [hvalue x origin hx] at hsome
    cases hsome
    rfl
  · intro clause hclause
    have hmem : Query.rule _ _ ∈ (wildcards 30000).nodes := List.mem_singleton_self _
    have hrules := (spellings.compile_isOk_iff (fun _ => ⟨_, rfl⟩) rfl (by decide +kernel)).mp
      ⟨clause, hclause⟩
    have hfits := (hrules _ _ hmem).fits rfl _ (hvalue _ _ hmem)
    rw [String.toList_ofList, Pattern.wildcardsSize_replicate_iff] at hfits
    omega

end Compiler

end Sift
