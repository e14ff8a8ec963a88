import Sift.Proofs.Query.RoundTrip

/-!
# Trees without origins

`Query.forgetOrigins` is the tree in which nothing says how its nodes came out of saved queries. A
tree that is written out does not show its origins, nor the sign of zero: trees that agree without
their origins have the same text (`print_expanded_eq_of_agrees`).
-/

namespace Sift

/-! ### The text of zero -/

theorem Number.text_unsignZero (x : Number) :
  x.unsignZero.text = x.text
  := by
  by_cases h : x.isZero = true
  · simp only [text, isZero_unsignZero, h, Bool.not_true, Bool.and_false, if_true]
  · rw [unsignZero, if_neg h]

namespace Value

mutual

theorem chars_unsignZeros (v : Value) :
  v.unsignZeros.chars = v.chars
  := by
  cases v with
  | number x => exact congrArg String.toList x.text_unsignZero
  | list items => rw [unsignZeros, chars, chars, charsOfItems_unsignItems]
  | string | bool | regex => rfl

theorem charsOfItems_unsignItems (items : List Value) :
  charsOfItems (unsignItems items) = charsOfItems items
  := by
  cases items with
  | nil => rfl
  | cons item rest =>
    rw [unsignItems, charsOfItems, charsOfItems, chars_unsignZeros, charsOfItems_unsignItems]

end

end Value

namespace Query

/-- The text of a group depends on its children only through their texts. -/
theorem chars_group_congr {style : Style} {condition : Condition} {negated : Bool}
    {children others : List Query} {origin other : Origin}
    (hshown : (group condition negated others other).shownName style
      = (group condition negated children origin).shownName style)
    (hchildren : others.map (chars style (some condition))
      = children.map (chars style (some condition))) (parent : Option Condition) :
  (group condition negated others other).chars style parent
    = (group condition negated children origin).chars style parent
  := by
  cases h : (group condition negated children origin).shownName style with
  | some ref => rw [chars_of_shown h, chars_of_shown (hshown.trans h)]
  | none =>
    have hlength := congrArg List.length hchildren
    rw [List.length_map, List.length_map] at hlength
    by_cases hne : children = []
    · subst hne
      obtain rfl := List.eq_nil_of_length_eq_zero hlength
      rw [chars_group_nil h, chars_group_nil (hshown.trans h)]
    · have hothers : others ≠ [] := by
        rintro rfl
        exact hne (List.eq_nil_of_length_eq_zero hlength.symm)
      rw [chars_group h hne, chars_group (hshown.trans h) hothers, hchildren]

/-- The text of a tree does not show the sign of zero. -/
theorem chars_unsignZeros (style : Style) (parent : Option Condition) (q : Query) :
  q.unsignZeros.chars style parent = q.chars style parent
  := by
  induction q generalizing parent with
  | rule x origin =>
    obtain ⟨field, operator, value⟩ := x
    have hrule : Rule.chars ⟨field, operator, value.map Value.unsignZeros⟩
        = Rule.chars ⟨field, operator, value⟩ := by
      cases value with
      | none => rfl
      | some v => simp only [Rule.chars, Option.map_some, Value.chars_unsignZeros]
    cases style with
    | collapsed => simp only [unsignZeros, chars, hrule, shownName, named]
    | expanded => exact hrule
  | group condition negated children origin ih =>
    rw [unsignZeros, unsignAll_eq_map]
    apply chars_group_congr
    · cases style <;> rfl
    · rw [List.map_map]
      apply List.map_congr_left
      intro child hchild
      exact ih child hchild (some condition)
  | reference => rfl

/-! ### Origins -/

mutual

/-- The tree in which nothing says how its nodes came out of saved queries. -/
def forgetOrigins : Query → Query
  | rule x _ => rule x {}
  | group condition negated children _ => group condition negated (forgetAll children) {}
  | reference ref => reference { ref with isChild := false }

/-- The trees in which nothing says how their nodes came out of saved queries. -/
def forgetAll : List Query → List Query
  | [] => []
  | q :: rest => q.forgetOrigins :: forgetAll rest

end

@[simp]
theorem forgetAll_eq_map (children : List Query) :
  forgetAll children = children.map forgetOrigins
  := by
  induction children with
  | nil => rfl
  | cons _ _ ih => rw [forgetAll, ih, List.map_cons]

@[simp]
theorem forgetOrigins_setNamed (named : Option Reference) (q : Query) :
  (q.setNamed named).forgetOrigins = q.forgetOrigins
  := by
  cases q <;> rfl

@[simp]
theorem forgetOrigins_markChildren (q : Query) :
  q.markChildren.forgetOrigins = q.forgetOrigins
  := by
  induction q with
  | rule => rfl
  | group condition negated children origin ih =>
    simp only [markChildren, markAll_eq_map, forgetOrigins, forgetAll_eq_map, List.map_map]
    congr 1
    apply List.map_congr_left
    exact ih
  | reference => rfl

end Query

end Sift
