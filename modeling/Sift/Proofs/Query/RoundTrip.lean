import Sift.Proofs.Query.Shown

/-!
# Round trip

Proper trees can be written down if their numbers are finite (`Proper.legible`), those that are
parsed among them, and a canonical tree means itself when it is written down (`Canonical.reread`),
up to the sign of zero. With `parse_print` this gives the round trip: the text of a tree that has
been parsed is parsed to an equal tree, in either style.
-/

namespace Sift

/-! ### Numbers and zeros -/

theorem Number.isZero_unsignZero (x : Number) :
  x.unsignZero.isZero = x.isZero
  := by
  rw [unsignZero]
  split <;> rfl

theorem Number.unsignZero_unsignZero (x : Number) :
  x.unsignZero.unsignZero = x.unsignZero
  := by
  by_cases h : x.isZero = true
  · rw [unsignZero, isZero_unsignZero, if_pos h, unsignZero, if_pos h]
  · rw [unsignZero, isZero_unsignZero, if_neg h]

namespace Value

mutual

theorem unsignZeros_unsignZeros (v : Value) :
  v.unsignZeros.unsignZeros = v.unsignZeros
  := by
  cases v with
  | number x => rw [unsignZeros, unsignZeros, Number.unsignZero_unsignZero]
  | list items => rw [unsignZeros, unsignZeros, unsignItems_unsignItems]
  | string | bool | regex => rfl

theorem unsignItems_unsignItems (items : List Value) :
  unsignItems (unsignItems items) = unsignItems items
  := by
  cases items with
  | nil => rfl
  | cons item rest =>
    rw [unsignItems, unsignItems, unsignZeros_unsignZeros, unsignItems_unsignItems]

end

end Value

namespace Query

theorem unsignZeros_unsignZeros (q : Query) :
  q.unsignZeros.unsignZeros = q.unsignZeros
  := by
  induction q with
  | rule x origin =>
    simp only [unsignZeros, Option.map_map]
    have hcomp : Value.unsignZeros ∘ Value.unsignZeros = Value.unsignZeros := by
      funext v
      exact v.unsignZeros_unsignZeros
    rw [hcomp]
  | group condition negated children origin ih =>
    simp only [unsignZeros, unsignAll_eq_map, List.map_map]
    congr 1
    apply List.map_congr_left
    exact ih
  | reference => rfl

/-- The numbers that the rules of a tree compare with. -/
def numbers (q : Query) : List Number :=
  q.nodes.flatMap fun
    | rule x _ => x.numbers
    | _ => []

/-! ### Canonical trees are read as themselves -/

mutual

/-- The tree in which `f` has changed the values of all rules. -/
def mapValues (f : Value → Value) : Query → Query
  | rule x origin => rule { x with value := x.value.map f } origin
  | group condition negated children origin => group condition negated (mapAll f children) origin
  | reference ref => reference ref

/-- The trees in which `f` has changed the values of all rules. -/
def mapAll (f : Value → Value) : List Query → List Query
  | [] => []
  | q :: rest => q.mapValues f :: mapAll f rest

end

@[simp]
theorem mapAll_eq_map (f : Value → Value) (children : List Query) :
  mapAll f children = children.map (mapValues f)
  := by
  induction children with
  | nil => rfl
  | cons _ _ ih => rw [mapAll, ih, List.map_cons]

theorem unsignZeros_eq_mapValues (q : Query) :
  q.unsignZeros = q.mapValues Value.unsignZeros
  := by
  induction q with
  | rule | reference => rfl
  | group condition negated children origin ih =>
    rw [unsignZeros, mapValues, unsignAll_eq_map, mapAll_eq_map, List.map_congr_left ih]

theorem spliced_mapValues (f : Value → Value) (condition : Condition) (q : Query) :
  spliced condition (q.mapValues f) = (spliced condition q).map (mapValues f)
  := by
  cases q with
  | rule => rfl
  | group own negated children origin =>
    simp only [mapValues, mapAll_eq_map, spliced, List.isEmpty_map]
    split
    · rfl
    · simp [mapValues]
  | reference => rfl

/-- What contributes itself to a chain does so when its values have changed. -/
theorem spliced_mapValues_of_flat {f : Value → Value} {condition : Condition}
    {children : List Query} (hflat : ∀ q ∈ children, spliced condition q = [q]) :
  ∀ q ∈ children.map (mapValues f), spliced condition q = [q]
  := by
  rw [List.forall_mem_map]
  intro q hq
  rw [spliced_mapValues, hflat q hq, List.map_singleton]

/-- A canonical tree means itself when it is written down, where zero has lost its sign. -/
theorem Canonical.reread {good : Rule → Prop} {known : String → Prop} {q : Query}
    (h : Canonical good known q) (style : Style) :
  q.reread style = q.unsignZeros
  := by
  induction h with
  | rule hx => cases style <;> rfl
  | reference hname negated => rfl
  | empty negated => cases style <;> rfl
  | @range x hx hrange =>
    have hnegate : (ofRule { x with value := x.value.map Value.unsignZeros }).negate
        = .group .and true [ofRule { x with value := x.value.map Value.unsignZeros }] {} := by
      simp only [ofRule, Query.negate, hrange]
    have hrule : (Query.rule x {}).reread style
        = ofRule { x with value := x.value.map Value.unsignZeros } := by
      cases style <;> rfl
    rw [reread_group (by cases style <;> rfl) (List.cons_ne_nil _ _), if_pos rfl,
      List.map_singleton, hrule]
    exact hnegate
  | @group condition negated children hlength hchildren hflat ih =>
    have hne : children ≠ [] := by
      rintro rfl
      simp at hlength
    have hmap : children.map (Query.reread style) = children.map (mapValues Value.unsignZeros) :=
      List.map_congr_left fun q hq => (ih q hq).trans q.unsignZeros_eq_mapValues
    rw [reread_group (by cases style <;> rfl) hne, hmap, chain_of_flat (by simpa using hlength)
      (spliced_mapValues_of_flat hflat), unsignZeros_eq_mapValues, mapValues, mapAll_eq_map]

/-- The text of a tree that has been parsed means the tree with the values that its values mean. -/
theorem Parsed.rereads {schema : Schema} {q : Query} (h : q.Parsed schema) (style : Style) :
  q.Rereads schema style (q.mapValues Value.reread)
  := by
  induction h with
  | rule hx => exact .rule (by cases style <;> rfl) hx
  | reference hname negated => exact .reference ⟨hname.1, hname.2⟩
  | empty negated => exact .empty (by cases style <;> rfl)
  | @range x hx hrange =>
    have hrule : ∀ q ∈ [Query.rule x {}], Rereads schema style q (q.mapValues Value.reread) :=
      List.forall_mem_singleton.mpr (.rule (by cases style <;> rfl) hx)
    have hnegate : (Query.mapValues Value.reread (.rule x {})).negate
        = mapValues Value.reread (.group .and true [.rule x {}] {}) := by
      simp only [mapValues, mapAll, Query.negate, hrange]
    rw [← hnegate]
    exact .group (by cases style <;> rfl) (List.cons_ne_nil _ _) hrule
  | @group condition negated children hlength hchildren hflat ih =>
    have hne : children ≠ [] := by
      rintro rfl
      simp at hlength
    rw [mapValues, mapAll_eq_map, ← chain_of_flat (by simpa using hlength)
      (spliced_mapValues_of_flat hflat) negated]
    exact .group (by cases style <;> rfl) hne ih

/-! ### Round trip -/

theorem numbers_rule (x : Rule) (origin : Origin) :
  (rule x origin).numbers = x.numbers
  := by
  simp [numbers, nodes]

theorem numbers_group (condition : Condition) (negated : Bool) (children : List Query)
    (origin : Origin) :
  (group condition negated children origin).numbers = children.flatMap numbers
  := by
  simp only [numbers, nodes, nodesOfAll_eq_flatMap, List.flatMap_cons, List.nil_append,
    List.flatMap_assoc]
  rfl

theorem mem_numbers_group {condition : Condition} {negated : Bool} {children : List Query}
    {origin : Origin} {x : Number} :
  x ∈ (group condition negated children origin).numbers ↔ ∃ q ∈ children, x ∈ q.numbers
  := by
  rw [numbers_group, List.mem_flatMap]

/-- A proper tree can be written down if its numbers are finite. -/
theorem Proper.legible {schema : Schema} {q : Query} (h : q.Proper schema)
    (hfinite : ∀ x ∈ q.numbers, x.isFinite = true) (style : Style) :
  q.Legible schema style
  := by
  induction q with
  | rule x origin =>
    cases hshown : (Query.rule x origin).shownName style with
    | none =>
      rw [numbers_rule] at hfinite
      exact .rule hshown ((proper_rule.mp h).1.legible hfinite)
    | some ref => exact .shown hshown (h.legible_of_shown hshown)
  | group condition negated children origin ih =>
    cases hshown : (Query.group condition negated children origin).shownName style with
    | none =>
      apply Legible.group hshown
      intro q hq
      apply ih q hq ((proper_group.mp h).2 q hq)
      intro x hx
      exact hfinite x (mem_numbers_group.2 ⟨q, hq, hx⟩)
    | some ref => exact .shown hshown (h.legible_of_shown hshown)
  | reference ref => exact .reference (proper_reference.mp h)

/-- What is parsed can be written down if its numbers are finite. -/
theorem Parsed.legible {schema : Schema} {q : Query} (h : q.Parsed schema)
    (hfinite : ∀ x ∈ q.numbers, x.isFinite = true) (style : Style) :
  q.Legible schema style
  := h.proper.legible hfinite style

/-- The text of a tree that has been parsed is parsed to an equal tree. -/
theorem parse_print_agrees {schema : Schema} (hdefault : schema.NamesDefault) {s : String}
    {q : Query} (h : parse schema s = .ok q) (hfinite : ∀ x ∈ q.numbers, x.isFinite = true) :
  ∀ style, ∃ r, parse schema (q.print style) = .ok r ∧ r.agrees q = true
  := by
  intro style
  have hparsed := parsed_of_parse hdefault h
  use q.reread style, parse_print (hparsed.legible hfinite style)
  rw [Canonical.reread hparsed, agrees, unsignZeros_unsignZeros, decide_eq_true_eq]

/-- A schema with a default field. -/
def people : Schema where
  fields := Table.ofList [("age", { name := "age", type := .number }),
    ("name", { name := "name", type := .string })]
  defaultField := some "name"

theorem parse_print_agrees_people :
  ∃ q, parse people "!(age>-0.50)&( name in [\"a\\\"b\", -0]|!Adults )" = .ok q
    ∧ ∀ style, ∃ r, parse people (q.print style) = .ok r ∧ r.agrees q = true
  := by
  have hdefault : people.NamesDefault := by
    rintro _ field ⟨⟩ hfield
    have hname : people.field? "name" = some { name := "name", type := .string } := by
      decide +kernel
    rw [hname] at hfield
    cases hfield
    exact ⟨rfl, rfl⟩
  have hparse : parse people "!(age>-0.50)&( name in [\"a\\\"b\", -0]|!Adults )"
      = .ok (.join .and [.group .and true
          [.ofRule ⟨"age", .gt, some (.number (Number.ofDigits true ['0'] ['5']))⟩] {},
        .join .or [.ofRule ⟨"name", .isIn,
            some (.list [.string "a\"b", .number (Number.ofDigits true ['0'] [])])⟩,
          .reference { name := "Adults", negated := true }]]) := by
    decide +kernel
  refine ⟨_, hparse, parse_print_agrees hdefault hparse ?_⟩
  decide +kernel

end Query

end Sift
