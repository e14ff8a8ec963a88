import Sift.Proofs.Query.RoundTrip
import Sift.Proofs.Saved.Folder
import Sift.Query.Codec

/-!
# Trees as data

A tree is read back from its record, with all its flags, if and only if the numbers in it are
finite, and so is a value; the record of a saved query is always read back
(`ofData?_toData_iff`). For values and trees this is an induction on what is written, where the
depth of the record bounds the depth of the reading (`Value.decode?_toData_iff`,
`Query.decode?_toData_iff`).
-/

namespace Sift

/-! ### Lists -/

/-- Some things are read back from a list if and only if each of them is. -/
theorem mapM_map_eq_some_iff {α β : Type} {write : α → β} {read : β → Option α}
    {items : List α} :
  (items.map write).mapM read = some items ↔ ∀ a ∈ items, read (write a) = some a
  := by
  induction items with
  | nil => simp
  | cons first rest ih =>
    rw [List.forall_mem_cons, ← ih, List.map_cons, List.mapM_cons]
    simp only [bind, pure, Option.bind_eq_some_iff, Option.some.injEq, List.cons.injEq]
    constructor
    · rintro ⟨_, hfirst, _, hrest, rfl, rfl⟩
      exact ⟨hfirst, hrest⟩
    · rintro ⟨hfirst, hrest⟩
      exact ⟨first, hfirst, rest, hrest, rfl, rfl⟩

namespace Data

theorem depth_le_depthItems {d : Data} {items : List Data} (h : d ∈ items) :
  d.depth ≤ depthItems items
  := by
  induction h with
  | head => exact Nat.le_max_left ..
  | tail _ _ ih => exact Nat.le_trans ih (Nat.le_max_right ..)

theorem depth_le_depthEntries {key : String} {d : Data} {entries : List (String × Data)}
    (h : (key, d) ∈ entries) :
  d.depth ≤ depthEntries entries
  := by
  induction entries with
  | nil => cases h
  | cons entry rest ih =>
    rw [depthEntries]
    obtain rfl | hrest := List.mem_cons.mp h
    · exact Nat.le_max_left ..
    · exact Nat.le_trans (ih hrest) (Nat.le_max_right ..)

/-- A number is read back if and only if it is finite. -/
theorem number?_ofNumber_iff {x : Number} :
  (ofNumber x).number? = some x ↔ x.isFinite = true
  := by
  rw [ofNumber]
  split
  case isTrue h => simp [number?, h]
  case isFalse h => simp [number?, h]

/-! ### Entries -/

/-- A key is looked for behind the entries that have other keys. -/
theorem member?_append_right {front back : List (String × Data)} {key : String}
    (h : ∀ entry ∈ front, entry.1 ≠ key) :
  member? (front ++ back) key = member? back key
  := by
  have hfront : (front.filter fun entry => entry.1 = key) = [] := by
    simpa [List.filter_eq_nil_iff] using h
  rw [member?, member?, List.filter_append, hfront, List.nil_append]

/-- A key is looked for before the entries that have other keys. -/
theorem member?_append_left {front back : List (String × Data)} {key : String}
    (h : ∀ entry ∈ back, entry.1 ≠ key) :
  member? (front ++ back) key = member? front key
  := by
  have hback : (back.filter fun entry => entry.1 = key) = [] := by
    simpa [List.filter_eq_nil_iff] using h
  rw [member?, member?, List.filter_append, hback, List.append_nil]

end Data

/-! ### Values -/

namespace Value

theorem itemsToData_eq_map (items : List Value) :
  itemsToData items = items.map toData
  := by
  induction items with
  | nil => rfl
  | cons _ _ ih => rw [itemsToData, ih, List.map_cons]

/-- What stands in the record of a value is read by its kind. -/
theorem decode?_record (isNothing : Data → Bool) (fuel : Nat) (kind : String) (d : Data) :
  decode? isNothing (fuel + 1) (.record [("type", .text kind), ("value", d)])
    = if kind = "string" then d.text?.map string
      else if kind = "number" then d.number?.map number
      else if kind = "bool" then d.bool?.map bool
      else if kind = "list" then (d.list? >>= List.mapM (decode? isNothing fuel)).map list
      else if kind = "regex" then regexOfData? d
      else none
  := rfl

/-- A value is read back from its record if and only if its numbers are finite. -/
theorem decode?_toData_iff {isNothing : Data → Bool} {v : Value} {fuel : Nat}
    (hdepth : v.toData.depth ≤ fuel) :
  decode? isNothing (fuel + 1) v.toData = some v ↔ ∀ x ∈ v.numbers, x.isFinite = true
  := by
  induction v generalizing fuel with
  | string s =>
    rw [toData, decode?_record]
    simp [Data.text?, numbers]
  | number x =>
    rw [toData, decode?_record]
    simp [Data.number?_ofNumber_iff, numbers]
  | bool b =>
    rw [toData, decode?_record]
    simp [Data.bool?, numbers]
  | list items ih =>
    simp only [toData, itemsToData_eq_map, Data.depth, Data.depthEntries] at hdepth
    obtain ⟨fuel, rfl⟩ := Nat.exists_eq_add_one.mpr (show 0 < fuel by omega)
    have hread : decode? isNothing (fuel + 2) (list items).toData = some (list items)
        ↔ (items.map toData).mapM (decode? isNothing (fuel + 1)) = some items := by
      rw [toData, decode?_record, itemsToData_eq_map]
      simp [Data.list?]
    rw [hread, mapM_map_eq_some_iff, numbers, numbersOfItems_eq_flatMap, List.forall_mem_flatMap]
    apply forall₂_congr
    intro item hitem
    have hle := Data.depth_le_depthItems (List.mem_map_of_mem (f := toData) hitem)
    exact ih item hitem (by omega)
  | regex pattern ignoreCase =>
    rw [toData, decode?_record]
    simp [regexOfData?, Data.entries?, Data.record?, Data.required, Data.defaulted, Data.member?,
      Data.text?, Data.bool?, numbers]

/-- A value in a tree is read back if and only if its numbers are finite. -/
theorem ofPart?_toData_iff {v : Value} :
  ofPart? v.toData = some v ↔ ∀ x ∈ v.numbers, x.isFinite = true
  := decode?_toData_iff (Nat.le_refl _)

/-- A value is written as a record, so it is not absent. -/
theorem present?_toData {α : Type} {read : Data → Option α} {v : Value} :
  v.toData.present? read = (read v.toData).map some
  := by
  cases v <;> rfl

end Value

/-! ### Parts of a tree -/

/-- A mention is read back from its entries, behind the kind of its node too. -/
theorem Reference.ofEntries?_append {front : List (String × Data)} (ref : Reference)
    (hfront : ∀ entry ∈ front, entry.1 ∉ keys) :
  ofEntries? (front ++ ref.toEntries) = some ref
  := by
  have hkey (key : String) (hkey : key ∈ keys) :
      Data.member? (front ++ ref.toEntries) key = Data.member? ref.toEntries key := by
    apply Data.member?_append_right
    rintro entry hentry rfl
    exact hfront entry hentry hkey
  rw [ofEntries?, Data.required, Data.defaulted, Data.defaulted, hkey "name" (by decide),
    hkey "negated" (by decide), hkey "isChild" (by decide)]
  obtain ⟨name, negated, isChild⟩ := ref
  cases isChild <;> rfl

theorem Reference.present?_toData (ref : Reference) :
  ref.toData.present? ofData? = some (some ref)
  := by
  have hread : ref.toData.present? ofData? = (ofEntries? ([] ++ ref.toEntries)).map some := rfl
  rw [hread, ofEntries?_append ref (by simp)]
  rfl

/-- How a node came out of a saved query is read back from behind its other entries. -/
theorem Origin.ofEntries?_append {front : List (String × Data)} (origin : Origin)
    (hfront : ∀ entry ∈ front, entry.1 ≠ "named" ∧ entry.1 ≠ "isChild") :
  ofEntries? (front ++ origin.toEntries) = some origin
  := by
  rw [ofEntries?, Data.optional, Data.defaulted,
    Data.member?_append_right fun entry hentry => (hfront entry hentry).1,
    Data.member?_append_right fun entry hentry => (hfront entry hentry).2]
  obtain ⟨named, isChild⟩ := origin
  cases named with
  | none => rfl
  | some ref => simp [toEntries, Data.member?, Reference.present?_toData, Data.bool?]

/-- Other keys are not looked for among the entries about the origin of a node. -/
theorem Origin.member?_append {front : List (String × Data)} (origin : Origin) {key : String}
    (hnamed : key ≠ "named") (hchild : key ≠ "isChild") :
  Data.member? (front ++ origin.toEntries) key = Data.member? front key
  := by
  apply Data.member?_append_left
  intro entry hentry
  simp only [toEntries, List.mem_append, Option.mem_toList, Option.map_eq_some_iff,
    List.mem_singleton] at hentry
  obtain ⟨_, -, rfl⟩ | rfl := hentry
  · exact hnamed.symm
  · exact hchild.symm

/-- A rule is read back from its entries, between the kind and the origin of its node, if and only
if its value is read back. -/
theorem Rule.ofEntries?_toEntries_iff (x : Rule) (origin : Origin) :
  ofEntries? (("kind", .text "rule") :: x.toEntries ++ origin.toEntries) = some x
    ↔ ∀ v ∈ x.value, Value.ofPart? v.toData = some v
  := by
  rw [ofEntries?, Data.required, Data.required, Data.optional,
    origin.member?_append (by decide) (by decide), origin.member?_append (by decide) (by decide),
    origin.member?_append (by decide) (by decide)]
  obtain ⟨field, operator, value⟩ := x
  cases value with
  | none => simp [toEntries, Data.member?, Data.text?, Data.name?, Operator.ofExactToken?_token]
  | some v =>
    cases hread : Value.ofPart? v.toData <;>
      simp [toEntries, Data.member?, Data.text?, Data.name?, Operator.ofExactToken?_token,
        Value.present?_toData, hread]

theorem Condition.ofName?_name (condition : Condition) :
  ofName? condition.name = some condition
  := by
  cases condition <;> rfl

/-! ### Trees -/

namespace Query

theorem allToData_eq_map (children : List Query) :
  allToData children = children.map toData
  := by
  induction children with
  | nil => rfl
  | cons _ _ ih => rw [allToData, ih, List.map_cons]

/-- The kind of a node is found in its record. -/
theorem split?_record {isRoot : Bool} {kind : String} {entries : List (String × Data)}
    (h : Data.member? entries "kind" = some (some (.text kind))) :
  split? isRoot (.record entries) = some (kind, .record entries)
  := by
  simp [split?, Data.required, h, kind?, Data.text?]

/-- A rule is read back if and only if its value is. -/
theorem decode?_toData_rule_iff {fuel : Nat} {isRoot : Bool} {x : Rule} {origin : Origin} :
  decode? (fuel + 1) isRoot (rule x origin).toData = some (rule x origin)
    ↔ ∀ v ∈ x.value, Value.ofPart? v.toData = some v
  := by
  have hkind : Data.member? (("kind", .text "rule") :: x.toEntries ++ origin.toEntries) "kind"
      = some (some (.text "rule")) := by
    rw [origin.member?_append (by decide) (by decide)]
    cases hvalue : x.value <;> simp [Data.member?, Rule.toEntries, hvalue]
  have horigin : Origin.ofEntries? (("kind", .text "rule") :: x.toEntries ++ origin.toEntries)
      = some origin := by
    apply Origin.ofEntries?_append
    cases hvalue : x.value <;> simp [Rule.toEntries, hvalue]
  rw [← Rule.ofEntries?_toEntries_iff x origin, toData]
  generalize ("kind", .text "rule") :: x.toEntries ++ origin.toEntries = entries at *
  rw [decode?, split?_record hkind]
  cases hx : Rule.ofEntries? entries <;> simp [Data.entries?, Data.record?, horigin, hx]

/-- A group is read from a record with its entries if and only if its children are read. -/
theorem decode?_group_iff {fuel : Nat} {isRoot : Bool} {entries : List (String × Data)}
    {condition : Condition} {negated : Bool} {items : List Data} {children : List Query}
    {origin : Origin} (hkind : Data.member? entries "kind" = some (some (.text "ruleset")))
    (hcondition : Data.member? entries "condition" = some (some (.text condition.name)))
    (hnot : Data.member? entries "not" = some (some (.bool negated)))
    (hchildren : Data.member? entries "children" = some (some (.list items)))
    (horigin : Origin.ofEntries? entries = some origin) :
  decode? (fuel + 1) isRoot (.record entries) = some (group condition negated children origin)
    ↔ items.mapM (decode? fuel false) = some children
  := by
  rw [decode?, split?_record hkind]
  cases hread : items.mapM (decode? fuel false) <;>
    simp [Data.entries?, Data.record?, Data.required, Data.defaulted, hcondition, hnot, hchildren,
      horigin, hread, Data.name?, Data.bool?, Data.list?, Condition.ofName?_name]

/-- A group is read back if and only if its children are. -/
theorem decode?_toData_group_iff {fuel : Nat} {isRoot : Bool} {condition : Condition}
    {negated : Bool} {children : List Query} {origin : Origin} :
  decode? (fuel + 1) isRoot (group condition negated children origin).toData
      = some (group condition negated children origin)
    ↔ (children.map toData).mapM (decode? fuel false) = some children
  := by
  rw [toData, allToData_eq_map]
  apply decode?_group_iff
  · exact origin.member?_append (by decide) (by decide)
  · exact origin.member?_append (by decide) (by decide)
  · exact origin.member?_append (by decide) (by decide)
  · exact origin.member?_append (by decide) (by decide)
  · apply Origin.ofEntries?_append
    simp

theorem decode?_toData_reference {fuel : Nat} {isRoot : Bool} {ref : Reference} :
  decode? (fuel + 1) isRoot (reference ref).toData = some (reference ref)
  := by
  have hread : Reference.ofEntries? ([("kind", .text "reference")] ++ ref.toEntries) = some ref :=
    Reference.ofEntries?_append ref (by decide)
  have hkind : Data.member? (("kind", .text "reference") :: ref.toEntries) "kind"
      = some (some (.text "reference")) := by
    obtain ⟨name, negated, isChild⟩ := ref
    cases isChild <;> rfl
  rw [toData, decode?, split?_record hkind]
  rw [List.singleton_append] at hread
  simp [Reference.ofData?, Data.entries?, Data.record?, hread]

/-- A tree is read back from its record if and only if its numbers are finite. -/
theorem decode?_toData_iff {q : Query} {fuel : Nat} {isRoot : Bool}
    (hdepth : q.toData.depth ≤ fuel) :
  decode? (fuel + 1) isRoot q.toData = some q ↔ ∀ x ∈ q.numbers, x.isFinite = true
  := by
  induction q generalizing fuel isRoot with
  | rule x origin =>
    have hnumbers : (Query.rule x origin).numbers = x.numbers := by simp [numbers, nodes]
    rw [decode?_toData_rule_iff, hnumbers, Rule.numbers]
    cases x.value with
    | none => simp
    | some v => simp [Value.ofPart?_toData_iff]
  | group condition negated children origin ih =>
    have hlist : (Data.list (children.map toData)).depth
        < (Query.group condition negated children origin).toData.depth := by
      rw [toData, allToData_eq_map]
      have hmem : ("children", Data.list (children.map toData)) ∈ [("kind", .text "ruleset"),
          ("condition", .text condition.name), ("not", .bool negated),
          ("children", .list (children.map toData))] ++ origin.toEntries := by
        simp
      exact Nat.lt_succ_of_le (Data.depth_le_depthEntries hmem)
    rw [Data.depth] at hlist
    obtain ⟨fuel, rfl⟩ := Nat.exists_eq_add_one.mpr (show 0 < fuel by omega)
    rw [decode?_toData_group_iff, mapM_map_eq_some_iff]
    simp only [mem_numbers_group, forall_exists_index, and_imp]
    constructor
    · intro h x q hq
      have hle := Data.depth_le_depthItems (List.mem_map_of_mem (f := toData) hq)
      exact (ih q hq (by omega)).mp (h q hq) x
    · intro h q hq
      have hle := Data.depth_le_depthItems (List.mem_map_of_mem (f := toData) hq)
      exact (ih q hq (by omega)).mpr fun x hx => h x q hq hx
  | reference ref => simp [decode?_toData_reference, numbers, nodes]

/-- A value and a tree are read back from their records if and only if the numbers in them are
finite, and the record of a saved query is always read back. -/
theorem ofData?_toData_iff :
  (∀ v : Value, Value.ofData? v.toData = some v ↔ ∀ x ∈ v.numbers, x.isFinite = true)
    ∧ (∀ q : Query, ofData? q.toData = some q ↔ ∀ x ∈ q.numbers, x.isFinite = true)
    ∧ ∀ query : SavedQuery, SavedQuery.ofData? query.toData = some query
  := by
  refine ⟨fun v => ?_, fun q => ?_, SavedQuery.ofData?_toData⟩
  · exact Value.decode?_toData_iff (Nat.le_refl _)
  · exact decode?_toData_iff (Nat.le_refl _)

end Query

end Sift
