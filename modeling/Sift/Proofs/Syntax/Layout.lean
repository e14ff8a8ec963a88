import Mathlib.Data.List.DropRight
import Sift.Syntax.Reader

/-!
# Layout and separators

`afterLayout` is a text without the layout at its beginning. The lemmas on `List.intercalate` say
what a text of parts with a separator between each two begins with, and how two such texts are put
together.
-/

namespace Sift.Syntax

/-! ### Layout -/

theorem isLayout_cases {c : Char} (h : isLayout c = true) :
  c = ' ' ∨ c = '\t' ∨ c = '\r' ∨ c = '\n'
  := by
  simpa only [isLayout, Bool.or_eq_true, decide_eq_true_eq, or_assoc] using h

/-- A text without the layout at its beginning. -/
def afterLayout (cs : List Char) : List Char :=
  cs.dropWhile isLayout

@[simp]
theorem afterLayout_afterLayout (cs : List Char) :
  afterLayout (afterLayout cs) = afterLayout cs
  := by
  apply List.dropWhile_idempotent

theorem afterLayout_append {text : List Char} (h : text.head?.any (!isLayout ·) = true)
    (rest : List Char) :
  afterLayout (text ++ rest) = text ++ rest
  := by
  cases text with
  | nil => cases h
  | cons c text =>
    have hc : isLayout c = false := by simpa using h
    simp [afterLayout, hc]

theorem length_afterLayout_le (cs : List Char) :
  (afterLayout cs).length ≤ cs.length
  := (List.dropWhile_sublist _).length_le

/-! ### Separators -/

theorem intercalate_cons (sep first : List Char) (others : List (List Char)) :
  sep.intercalate (first :: others) = first ++ others.flatMap (sep ++ ·)
  := by
  induction others generalizing first with
  | nil => simp
  | cons second others ih =>
    rw [List.intercalate_cons_cons, ih, List.flatMap_cons, List.append_assoc, List.append_assoc]

theorem head?_intercalate_cons {sep first : List Char} (hfirst : first ≠ [])
    (others : List (List Char)) :
  (sep.intercalate (first :: others)).head? = first.head?
  := by
  rw [intercalate_cons, List.head?_append_of_ne_nil _ hfirst]

theorem intercalate_append {sep : List Char} {first second : List (List Char)} (hfirst : first ≠ [])
    (hsecond : second ≠ []) :
  sep.intercalate (first ++ second) = sep.intercalate first ++ sep ++ sep.intercalate second
  := by
  match first, second, hfirst, hsecond with
  | a :: as, b :: bs, _, _ =>
    rw [List.cons_append, intercalate_cons, intercalate_cons, intercalate_cons,
      List.flatMap_append, List.flatMap_cons]
    simp only [List.append_assoc]

theorem length_le_intercalate {sep part : List Char} {parts : List (List Char)}
    (h : part ∈ parts) :
  part.length ≤ (sep.intercalate parts).length
  := by
  induction parts with
  | nil => cases h
  | cons first others ih =>
    cases others with
    | nil =>
      rw [List.mem_singleton] at h
      rw [h, List.intercalate_singleton]
    | cons second others =>
      rw [List.intercalate_cons_cons, List.length_append, List.length_append]
      obtain rfl | h := List.mem_cons.1 h
      · omega
      · have := ih h
        omega

end Sift.Syntax
