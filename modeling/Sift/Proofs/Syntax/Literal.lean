import Sift.Proofs.Computation
import Sift.Proofs.Syntax.Reader
import Sift.Proofs.Syntax.Token

/-!
# Printed values

`Value.Proper` says which values a literal can have: lists of values without parts, and regexes that
end where they should and that the search engine can match. A printed value is read as a literal
for `Value.reread` (`readsAsValue`), where zero has lost its sign and an infinite number has become
a word; `Value.Legible` are the values without infinite numbers, which mean themselves.
`Literal.proper_of_toValue` says that the values that are read are proper.
-/

namespace Sift

namespace Value

/-- Whether a value has no parts and can be written down. -/
def IsScalar : Value → Prop
  | string _ | bool _ => True
  | number x => x.isFinite = true
  | list _ | regex .. => False

/-- Whether a value can be written down. -/
def Legible : Value → Prop
  | list items => ∀ item ∈ items, item.IsScalar
  | regex pattern ignoreCase =>
    Syntax.LiteralBody Syntax.endsRegex pattern.toList
      ∧ ∃ query, Pattern.toEngine pattern ignoreCase = .ok query
  | v => v.IsScalar

/-- Whether a value has no parts. -/
def IsAtom : Value → Prop
  | string _ | number _ | bool _ => True
  | list _ | regex .. => False

/-- Whether a value is one that a literal can have. -/
def Proper : Value → Prop
  | list items => ∀ item ∈ items, item.IsAtom
  | regex pattern ignoreCase =>
    Syntax.LiteralBody Syntax.endsRegex pattern.toList
      ∧ ∃ query, Pattern.toEngine pattern ignoreCase = .ok query
  | v => v.IsAtom

/-- What holds of every value without parts, and of every list whose items it holds of, holds of
every value. -/
@[elab_as_elim, induction_eliminator]
theorem partInduction {motive : Value → Prop}
    (string : ∀ s, motive (.string s)) (number : ∀ x, motive (.number x))
    (bool : ∀ b, motive (.bool b))
    (list : ∀ items, (∀ item ∈ items, motive item) → motive (.list items))
    (regex : ∀ pattern ignoreCase, motive (.regex pattern ignoreCase)) :
    ∀ v, motive v
  | .string s => string s
  | .number x => number x
  | .bool b => bool b
  | .list items =>
    list items fun item _ => partInduction string number bool list regex item
  | .regex pattern ignoreCase => regex pattern ignoreCase

theorem charsOfItems_eq_map (items : List Value) :
  charsOfItems items = items.map chars
  := by
  induction items with
  | nil => rfl
  | cons _ _ ih => rw [charsOfItems, ih, List.map_cons]

theorem unsignItems_eq_map (items : List Value) :
  unsignItems items = items.map unsignZeros
  := by
  induction items with
  | nil => rfl
  | cons _ _ ih => rw [unsignItems, ih, List.map_cons]

mutual

/-- The numbers in a value. -/
def numbers : Value → List Number
  | number x => [x]
  | list items => numbersOfItems items
  | _ => []

/-- The numbers in some values, those of one value after those of the other. -/
def numbersOfItems : List Value → List Number
  | [] => []
  | item :: rest => item.numbers ++ numbersOfItems rest

end

theorem numbersOfItems_eq_flatMap (items : List Value) :
  numbersOfItems items = items.flatMap numbers
  := by
  induction items with
  | nil => rfl
  | cons _ _ ih => rw [numbersOfItems, ih, List.flatMap_cons]

theorem IsScalar.chars_eq {v : Value} (hv : v.IsScalar) :
  v.chars = v.printScalar
  := by
  cases v with
  | list => cases hv
  | _ => rfl

/-- Whether the text of a value without parts can begin with a character. -/
def isScalarStart (c : Char) : Bool :=
  c = '"' || c = '-' || c.isAlphanum

/-- The text of a value without parts shows at its beginning that it is one. -/
theorem IsScalar.head {v : Value} (hv : v.IsScalar) :
  ∃ c cs, v.printScalar = c :: cs ∧ isScalarStart c = true
  := by
  cases v with
  | string s => exact ⟨_, _, rfl, rfl⟩
  | number x =>
    obtain ⟨c, cs, htext, hc⟩ := Number.exists_text_eq_cons hv
    use c, cs, htext
    obtain rfl | hc := hc
    · rfl
    · simp [isScalarStart, Char.isAlphanum, hc]
  | bool b => cases b <;> exact ⟨_, _, rfl, rfl⟩
  | list => cases hv
  | regex => cases hv

/-- A sign with which no such text begins is not at its beginning. -/
theorem IsScalar.head_ne {v : Value} (hv : v.IsScalar) {sign : Char}
    (hsign : isScalarStart sign = false) (rest : List Char) :
  (v.printScalar ++ rest).head? ≠ some sign
  := by
  obtain ⟨c, cs, htext, hc⟩ := hv.head
  rw [htext]
  rintro ⟨⟩
  simp [hc] at hsign

theorem not_isLayout_of_isScalarStart {c : Char} (hc : isScalarStart c = true) :
  Syntax.isLayout c = false
  := by
  by_contra h
  have hlayout : Syntax.isLayout c = true := by simpa using h
  simp only [Syntax.isLayout, Bool.or_eq_true, decide_eq_true_eq] at hlayout
  obtain ((rfl | rfl) | rfl) | rfl := hlayout <;> cases hc

/-- A value without parts can be written down unless it is an infinite number. -/
theorem IsAtom.isScalar_or_infinite {v : Value} (hv : v.IsAtom) :
  v.IsScalar ∨ ∃ x, v = number x ∧ x.isFinite = false
  := by
  cases v with
  | string => exact .inl trivial
  | number x =>
    cases hx : x.isFinite with
    | false => exact .inr ⟨x, rfl, hx⟩
    | true => exact .inl hx
  | bool => exact .inl trivial
  | list => cases hv
  | regex => cases hv

theorem IsScalar.isAtom {v : Value} (hv : v.IsScalar) :
  v.IsAtom
  := by
  cases v with
  | string | number | bool => trivial
  | list | regex => cases hv

/-- The value of a literal has no parts, or is a list of such values, or a regex. -/
theorem Proper.cases {v : Value} (hv : v.Proper) :
  v.IsAtom ∨ (∃ items, v = list items ∧ ∀ item ∈ items, item.IsAtom)
    ∨ ∃ pattern ignoreCase query, v = regex pattern ignoreCase
      ∧ Syntax.LiteralBody Syntax.endsRegex pattern.toList
      ∧ Pattern.toEngine pattern ignoreCase = .ok query
  := by
  cases v with
  | string => exact .inl hv
  | number => exact .inl hv
  | bool => exact .inl hv
  | list items => exact .inr (.inl ⟨items, rfl, hv⟩)
  | regex pattern ignoreCase =>
    obtain ⟨hbody, query, hquery⟩ := hv
    exact .inr (.inr ⟨pattern, ignoreCase, query, rfl, hbody, hquery⟩)

theorem Legible.proper {v : Value} (hv : v.Legible) :
  v.Proper
  := by
  cases v with
  | string | number | bool => trivial
  | list items => exact fun item hitem => (hv item hitem).isAtom
  | regex => exact hv

/-- The value of a literal can be written down if its numbers are finite. -/
theorem Proper.legible {v : Value} (hv : v.Proper) (hfinite : ∀ x ∈ v.numbers, x.isFinite = true) :
  v.Legible
  := by
  cases v with
  | string | bool => trivial
  | number x => exact hfinite x (List.mem_singleton_self x)
  | list items =>
    rw [numbers, numbersOfItems_eq_flatMap] at hfinite
    intro item hitem
    obtain hscalar | ⟨x, rfl, -⟩ := (hv item hitem).isScalar_or_infinite
    · exact hscalar
    · exact hfinite x (List.mem_flatMap_of_mem hitem (List.mem_singleton_self x))
  | regex => exact hv

/-- What the text of a value without parts means: zero has lost its sign, and an infinite number has
become a word. -/
def rereadAtom : Value → Value
  | number x => if x.isFinite then number x.unsignZero else string x.text
  | v => v

/-- What the text of a value means. -/
def reread : Value → Value
  | list items => list (items.map rereadAtom)
  | v => v.rereadAtom

theorem IsScalar.rereadAtom_eq {v : Value} (hv : v.IsScalar) :
  v.rereadAtom = v.unsignZeros
  := by
  cases v with
  | string | bool => rfl
  | number x => exact if_pos hv
  | list | regex => cases hv

theorem Legible.reread_eq {v : Value} (hv : v.Legible) :
  v.reread = v.unsignZeros
  := by
  cases v with
  | string | bool | regex => rfl
  | number x => exact if_pos hv
  | list items =>
    rw [reread, unsignZeros, unsignItems_eq_map]
    congr 1
    apply List.map_congr_left
    intro item hitem
    exact (hv item hitem).rereadAtom_eq

/-- The items of a list show at their beginning that they have no parts. -/
theorem items_head {items : List Value} (hne : items ≠ [])
    (hitems : ∀ v ∈ items, ∃ c cs, v.chars = c :: cs ∧ isScalarStart c = true) :
  ∃ c cs, [',', ' '].intercalate (items.map chars) = c :: cs ∧ isScalarStart c = true
  := by
  cases items with
  | nil => exact absurd rfl hne
  | cons first others =>
    obtain ⟨c, cs, htext, hc⟩ := hitems first (by simp)
    rw [List.map_cons, Syntax.intercalate_cons, htext, List.cons_append]
    exact ⟨c, _, rfl, hc⟩

end Value

namespace Syntax

open Reader

/-! ### Tokens that are not there -/

theorem quoted_eq_none {cs : List Char} (h : ∀ c ∈ cs.head?, c ≠ '"' ∧ c ≠ '\x27') :
  quoted cs = none
  := by
  cases cs with
  | nil => rfl
  | cons c cs =>
    have hc := h c rfl
    simp only [quoted, hc.1, hc.2, or_self, if_false]

theorem regex_eq_none {cs : List Char} (h : cs.head? ≠ some '/') :
  regex cs = none
  := by
  rw [regex.eq_def]
  split
  · exact absurd rfl h
  · rfl

theorem number_eq_none {cs : List Char} (h : ∀ c ∈ cs.head?, c ≠ '-' ∧ c.isDigit = false) :
  number cs = none
  := by
  have hsign : cs.head? ≠ some '-' := by
    intro hhead
    exact (h '-' hhead).1 rfl
  have hdigits : someRun Char.isDigit cs = none := someRun_eq_none fun c hc => (h c hc).2
  simp [number, hsign, hdigits]

theorem boolean_eq_none {cs : List Char} (h : ∀ c ∈ cs.head?, c ≠ 't' ∧ c ≠ 'f') :
  boolean cs = none
  := by
  rw [boolean.eq_def]
  split
  · exact absurd rfl (h _ rfl).1
  · exact absurd rfl (h _ rfl).2
  · rfl

/-! ### Values without parts -/

/-- The text of a finite number is read as a literal for it. -/
theorem exists_number_eq {x : Number} (hx : x.isFinite = true) {rest : List Char}
    (hrest : endsWord rest = true) :
  ∃ scalar text, number (x.text.toList ++ rest) = some ⟨scalar, text, rest⟩
    ∧ scalar.toValue = .number x.unsignZero
  := by
  obtain ⟨negative, whole, fraction, htext, hne, hdigits, hvalue⟩ := Number.exists_text_eq hx
  obtain ⟨text, hnumber⟩ := @number_append negative whole fraction rest hne hdigits hrest
  use .number negative whole fraction, text
  rw [htext]
  exact ⟨hnumber, congrArg Value.number hvalue⟩

theorem refuses_readQuoted {cs : List Char} (h : ∀ c ∈ cs.head?, c ≠ '"' ∧ c ≠ '\x27') :
  Refuses readQuoted cs
  := Refuses.construct (Refuses.lexeme (quoted_eq_none h))

theorem refuses_readList {cs : List Char} (h : cs.head? ≠ some '[') :
  Refuses readList cs
  := Refuses.construct (Refuses.or (Refuses.bind (Refuses.sign h)) (Refuses.bind (Refuses.sign h)))

theorem refuses_readRegex {cs : List Char} (h : cs.head? ≠ some '/') :
  Refuses (Literal.regex <$> construct .regex (lexeme regex)) cs
  := Refuses.map (Refuses.construct (Refuses.lexeme (regex_eq_none h)))

/-- The text of a string is read as a literal for it. -/
theorem reads_readQuoted (s : String) (rest : List Char) :
  Reads readQuoted ((Value.string s).printScalar ++ rest) fun raw behind =>
    (Scalar.quoted raw).toValue = .string s ∧ behind = rest
  := by
  have htext : (Value.string s).printScalar ++ rest
      = '"' :: Value.escape s.toList ++ '"' :: rest := by
    simp [Value.printScalar]
  rw [htext]
  apply Reads.construct
  apply Reads.lexeme (quoted_append s.toList rest)
  rw [Scalar.toValue, unescape_escape, String.ofList_toList]
  exact ⟨rfl, rfl⟩

theorem refuses_readQuoted_number {x : Number} (hx : x.isFinite = true) (rest : List Char) :
  Refuses readQuoted ((Value.number x).printScalar ++ rest)
  := by
  obtain ⟨c, cs, htext, hc⟩ := Number.exists_text_eq_cons hx
  apply refuses_readQuoted
  rw [Value.printScalar, htext]
  rintro _ ⟨⟩
  obtain rfl | hc := hc
  · decide
  · constructor <;> rintro rfl <;> cases hc

theorem bool_head (b : Bool) (rest : List Char) :
  ∀ c ∈ ((Value.bool b).printScalar ++ rest).head?, c = 't' ∨ c = 'f'
  := by
  cases b with
  | false =>
    rintro _ ⟨⟩
    exact .inr rfl
  | true =>
    rintro _ ⟨⟩
    exact .inl rfl

theorem refuses_readQuoted_bool (b : Bool) (rest : List Char) :
  Refuses readQuoted ((Value.bool b).printScalar ++ rest)
  := by
  apply refuses_readQuoted
  intro c hc
  obtain rfl | rfl := bool_head b rest c hc <;> decide

theorem refuses_number_bool {kind : Construct} (b : Bool) (rest : List Char) :
  Refuses (construct kind (lexeme number)) ((Value.bool b).printScalar ++ rest)
  := by
  apply Refuses.construct
  apply Refuses.lexeme
  apply number_eq_none
  intro c hc
  obtain rfl | rfl := bool_head b rest c hc <;> decide

/-- The text of a value without parts is read as a literal for it. -/
theorem reads_readScalar {v : Value} (hv : v.IsScalar) {rest : List Char}
    (hrest : endsWord rest = true) :
  Reads readScalar (v.printScalar ++ rest) fun scalar behind =>
    scalar.toValue = v.unsignZeros ∧ behind = rest
  := by
  cases v with
  | string s =>
    apply Reads.or_left
    apply Reads.or_left
    apply Reads.map
    exact reads_readQuoted s rest
  | number x =>
    obtain ⟨scalar, text, hnumber, hvalue⟩ := exists_number_eq hv hrest
    apply Reads.or_left
    apply Reads.or_right (Refuses.map (refuses_readQuoted_number hv rest))
    apply Reads.construct
    exact Reads.lexeme hnumber ⟨hvalue, rfl⟩
  | bool b =>
    obtain ⟨text, hboolean⟩ := boolean_append b hrest
    apply Reads.or_right
    · apply Refuses.or (Refuses.map (refuses_readQuoted_bool b rest))
      exact refuses_number_bool b rest
    · apply Reads.or_left
      apply Reads.construct
      exact Reads.lexeme hboolean ⟨rfl, rfl⟩
  | list => cases hv
  | regex => cases hv

/-! ### Infinite numbers -/

/-- An infinite number is written as a word. -/
theorem text_of_infinite {x : Number} (hx : x.isFinite = false) :
  x.text.toList = ['i', 'n', 'f'] ∨ x.text.toList = ['-', 'i', 'n', 'f']
  := by
  have hzero : x.isZero = false := by
    simp only [Number.isFinite, Number.isZero, decide_eq_false_iff_not] at hx ⊢
    intro hrank
    rw [hrank] at hx
    exact hx (by decide)
  cases hsign : x.negative <;> simp [Number.text, hx, hzero, hsign]

theorem infinite_head {x : Number} (hx : x.isFinite = false) (rest : List Char) :
  ∀ c ∈ (x.text.toList ++ rest).head?, c = 'i' ∨ c = '-'
  := by
  obtain htext | htext := text_of_infinite hx <;> rw [htext]
  · rintro _ ⟨⟩
    exact .inl rfl
  · rintro _ ⟨⟩
    exact .inr rfl

theorem refuses_readQuoted_infinite {x : Number} (hx : x.isFinite = false) (rest : List Char) :
  Refuses readQuoted (x.text.toList ++ rest)
  := by
  apply refuses_readQuoted
  intro c hc
  obtain rfl | rfl := infinite_head hx rest c hc <;> decide

theorem number_infinite {x : Number} (hx : x.isFinite = false) (rest : List Char) :
  number (x.text.toList ++ rest) = none
  := by
  obtain htext | htext := text_of_infinite hx <;> rw [htext]
  · apply number_eq_none
    rintro _ ⟨⟩
    decide
  · have hdigits : someRun Char.isDigit ('i' :: 'n' :: 'f' :: rest) = none := by
      apply someRun_eq_none
      rintro _ ⟨⟩
      rfl
    simp [number, hdigits]

theorem boolean_infinite {x : Number} (hx : x.isFinite = false) (rest : List Char) :
  boolean (x.text.toList ++ rest) = none
  := by
  apply boolean_eq_none
  intro c hc
  obtain rfl | rfl := infinite_head hx rest c hc <;> decide

/-- The word that an infinite number is written as is read as a bare word. -/
theorem bare_infinite {x : Number} (hx : x.isFinite = false) {rest : List Char}
    (hrest : endsWord rest = true) :
  bare (x.text.toList ++ rest) = some ⟨x.text.toList, x.text.toList, rest⟩
  := by
  have hends : ∀ c ∈ rest.head?, isBare c = false := not_of_endsWord hrest fun _ h => h
  obtain htext | htext := text_of_infinite hx <;> rw [htext]
  · exact someRun_append (List.cons_ne_nil _ _) (List.all_eq_true.1 rfl) hends
  · exact someRun_append (List.cons_ne_nil _ _) (List.all_eq_true.1 rfl) hends

/-! ### Atoms -/

theorem head_of_isScalarStart {text : List Char}
    (h : ∃ c cs, text = c :: cs ∧ Value.isScalarStart c = true) :
  text.head?.any (!isLayout ·) = true
  := by
  obtain ⟨c, cs, rfl, hc⟩ := h
  rw [List.head?_cons, Option.any_some, Value.not_isLayout_of_isScalarStart hc, Bool.not_false]

/-- Whether the text of a value has no parts and is read as a literal for another value. -/
structure ReadsAsScalar (v w : Value) : Prop where
  head : ∃ c cs, v.chars = c :: cs ∧ Value.isScalarStart c = true
  reads : ∀ rest, endsWord rest = true → Reads readScalar (v.chars ++ rest) fun scalar behind =>
    scalar.toValue = w ∧ behind = rest

/-- The text of a value without parts is read as a literal for what it means. -/
theorem readsAsScalar {v : Value} (hv : v.IsAtom) :
  ReadsAsScalar v v.rereadAtom
  := by
  obtain hv | ⟨x, rfl, hx⟩ := hv.isScalar_or_infinite
  · constructor
    · rw [hv.chars_eq]
      exact hv.head
    · intro rest hrest
      rw [hv.chars_eq, hv.rereadAtom_eq]
      exact reads_readScalar hv hrest
  · rw [Value.rereadAtom, hx, if_neg Bool.false_ne_true]
    constructor
    · obtain htext | htext := text_of_infinite hx
      · exact ⟨_, _, htext, rfl⟩
      · exact ⟨_, _, htext, rfl⟩
    · intro rest hrest
      apply Reads.or_right
      · apply Refuses.or (Refuses.map (refuses_readQuoted_infinite hx rest))
        exact Refuses.construct (Refuses.lexeme (number_infinite hx rest))
      apply Reads.or_right
      · exact Refuses.construct (Refuses.lexeme (boolean_infinite hx rest))
      · apply Reads.map
        apply Reads.construct
        apply Reads.lexeme (bare_infinite hx hrest)
        exact ⟨by rw [Scalar.toValue, String.ofList_toList], rfl⟩

/-! ### Lists -/

/-- The text of a list item is read as it. -/
theorem reads_readItem {v w : Value} (hv : ReadsAsScalar v w) {rest : List Char}
    (hrest : rest.head?.any [',', ']'].contains = true) :
  Reads readItem (v.chars ++ rest) fun item behind =>
    item.toValue = .ok w ∧ afterLayout behind = afterLayout rest
  := by
  obtain ⟨c, behind, rfl⟩ : ∃ c behind, rest = c :: behind := by
    cases rest with
    | nil => cases hrest
    | cons c behind => exact ⟨c, behind, rfl⟩
  have hc : c = ',' ∨ c = ']' := by simpa using hrest
  have hword : endsWord (c :: behind) = true := by
    obtain rfl | rfl := hc <;> simp [endsWord] <;> decide
  have hskip : afterLayout (c :: behind) = c :: behind := by
    obtain rfl | rfl := hc <;> rfl
  apply Reads.or_left
  apply Reads.bind (Reads.construct (hv.reads _ hword))
  rintro scalar _ ⟨hscalar, rfl⟩
  apply Reads.layout_bind
  rw [hskip]
  have hbefore : Reads (before [',', ']']) (c :: behind) fun _ rest => rest = c :: behind :=
    Reads.before hrest rfl
  apply Reads.bind hbefore
  rintro _ _ rfl
  apply Reads.pure
  rw [Item.toValue, hscalar]
  exact ⟨rfl, hskip⟩

/-- The items of a list are read as literals for them. -/
theorem reads_items {items : List Value} {read : Value → Value} (hne : items ≠ [])
    (hitems : ∀ item ∈ items, ReadsAsScalar item (read item)) (rest : List Char) :
  Reads (separated ',' readItem)
    ([',', ' '].intercalate (items.map Value.chars) ++ (']' :: rest)) fun found behind =>
      List.Forall₂ (fun v item => item.toValue = .ok (read v)) items found
        ∧ afterLayout behind = ']' :: rest
  := by
  have hend : afterLayout (']' :: rest) = ']' :: rest := rfl
  rw [← hend]
  apply Reads.separated _ _ hne _ fun v hv rest => reads_readItem (hitems v hv)
  · rfl
  · change some ']' ≠ some ','
    decide
  · intro rest
    rfl
  · intro rest
    rfl
  · intro v hv
    exact head_of_isScalarStart (hitems v hv).head

/-- The text of a list is read as literals for its items. -/
theorem reads_readList {items : List Value} {read : Value → Value}
    (hitems : ∀ item ∈ items, ReadsAsScalar item (read item)) (rest : List Char) :
  Reads readList ((Value.list items).chars ++ rest) fun found behind =>
    List.Forall₂ (fun v item => item.toValue = .ok (read v)) items found ∧ behind = rest
  := by
  have htext : (Value.list items).chars ++ rest
      = '[' :: ([',', ' '].intercalate (items.map Value.chars) ++ ']' :: rest) := by
    simp [Value.chars, Value.charsOfItems_eq_map]
  rw [htext]
  apply Reads.construct
  by_cases hne : items = []
  · rw [hne]
    apply Reads.or_left
    apply Reads.sign_bind
    apply Reads.layout_bind
    apply Reads.sign_bind
    exact Reads.pure ⟨.nil, rfl⟩
  · obtain ⟨c, cs, hcs, hc⟩ := Value.items_head hne fun v hv => (hitems v hv).head
    have hskip : afterLayout ([',', ' '].intercalate (items.map Value.chars) ++ ']' :: rest)
        = [',', ' '].intercalate (items.map Value.chars) ++ ']' :: rest :=
      afterLayout_append (head_of_isScalarStart ⟨c, cs, hcs, hc⟩) _
    apply Reads.or_right
    · apply Refuses.sign_bind
      apply Refuses.layout_bind
      apply Refuses.bind
      apply Refuses.sign
      rw [hskip, hcs]
      rintro ⟨⟩
      cases hc
    · apply Reads.sign_bind
      apply Reads.layout_bind
      rw [hskip]
      apply Reads.bind (reads_items hne hitems rest)
      rintro found behind ⟨hfound, hbehind⟩
      apply Reads.layout_bind
      rw [hbehind]
      apply Reads.sign_bind
      exact Reads.pure ⟨hfound, rfl⟩

/-! ### Values -/

/-- The text of a value without parts is read as a literal for it. -/
theorem reads_readLiteral_of_isScalar {v : Value} (hv : v.IsScalar) {rest : List Char}
    (hrest : endsWord rest = true) :
  Reads readLiteral (v.printScalar ++ rest) fun literal behind =>
    literal.toValue = .ok v.unsignZeros ∧ behind = rest
  := by
  have hslash : Value.isScalarStart '/' = false := rfl
  have hbracket : Value.isScalarStart '[' = false := rfl
  have hregex := refuses_readRegex (hv.head_ne hslash rest)
  have hlist := refuses_readList (hv.head_ne hbracket rest)
  apply Reads.construct
  apply Reads.or_right hregex
  cases v with
  | string s =>
    apply Reads.or_left
    apply Reads.map
    apply Reads.map
    apply (reads_readQuoted s rest).mono
    rintro raw _ ⟨hraw, rfl⟩
    exact ⟨congrArg Except.ok hraw, rfl⟩
  | number x =>
    obtain ⟨scalar, text, hnumber, hvalue⟩ := exists_number_eq hv hrest
    apply Reads.or_right (Refuses.map (Refuses.map (refuses_readQuoted_number hv rest)))
    apply Reads.or_right (Refuses.map hlist)
    apply Reads.or_left
    apply Reads.map
    apply Reads.construct
    exact Reads.lexeme hnumber ⟨congrArg Except.ok hvalue, rfl⟩
  | bool b =>
    obtain ⟨text, hboolean⟩ := boolean_append b hrest
    apply Reads.or_right (Refuses.map (Refuses.map (refuses_readQuoted_bool b rest)))
    apply Reads.or_right (Refuses.map hlist)
    apply Reads.or_right (Refuses.map (refuses_number_bool b rest))
    apply Reads.or_left
    apply Reads.map
    apply Reads.construct
    exact Reads.lexeme hboolean ⟨rfl, rfl⟩
  | list => cases hv
  | regex => cases hv

/-- The text of a value without parts is read as a literal for what it means. -/
theorem reads_readLiteral_atom {v : Value} (hv : v.IsAtom) {rest : List Char}
    (hrest : endsWord rest = true) :
  Reads readLiteral (v.chars ++ rest) fun literal behind =>
    literal.toValue = .ok v.rereadAtom ∧ behind = rest
  := by
  obtain hv | ⟨x, rfl, hx⟩ := hv.isScalar_or_infinite
  · rw [hv.chars_eq, hv.rereadAtom_eq]
    exact reads_readLiteral_of_isScalar hv hrest
  · have hne (c : Char) (hc : c ≠ 'i' ∧ c ≠ '-') : (x.text.toList ++ rest).head? ≠ some c := by
      intro h
      obtain rfl | rfl := infinite_head hx rest c h
      · exact hc.1 rfl
      · exact hc.2 rfl
    rw [Value.rereadAtom, hx, if_neg Bool.false_ne_true]
    apply Reads.construct
    apply Reads.or_right (refuses_readRegex (hne '/' (by decide)))
    apply Reads.or_right (Refuses.map (Refuses.map (refuses_readQuoted_infinite hx rest)))
    apply Reads.or_right (Refuses.map (refuses_readList (hne '[' (by decide))))
    apply Reads.or_right
    · exact Refuses.map (Refuses.construct (Refuses.lexeme (number_infinite hx rest)))
    apply Reads.or_right
    · exact Refuses.map (Refuses.construct (Refuses.lexeme (boolean_infinite hx rest)))
    · apply Reads.map
      apply Reads.construct
      apply Reads.lexeme (bare_infinite hx hrest)
      exact ⟨by rw [Literal.toValue, Scalar.toValue, String.ofList_toList], rfl⟩

/-- The text of a list is read as a literal for it. -/
theorem reads_readLiteral_list {items : List Value} {read : Value → Value}
    (hitems : ∀ item ∈ items, ReadsAsScalar item (read item)) (rest : List Char) :
  Reads readLiteral ((Value.list items).chars ++ rest) fun literal behind =>
    literal.toValue = .ok (.list (items.map read)) ∧ behind = rest
  := by
  have hhead : ((Value.list items).chars ++ rest).head? = some '[' := rfl
  apply Reads.construct
  apply Reads.or_right
  · apply refuses_readRegex
    rw [hhead]
    decide
  apply Reads.or_right
  · apply Refuses.map
    apply Refuses.map
    apply refuses_readQuoted
    rw [hhead]
    rintro _ ⟨⟩
    decide
  apply Reads.or_left
  apply Reads.map
  apply (reads_readList hitems rest).mono
  rintro found _ ⟨hfound, rfl⟩
  have hvalues : found.mapM Item.toValue = .ok (items.map read) := by
    apply mapM_eq_ok_of_forall₂
    exact List.forall₂_map_right_iff.2 hfound.flip
  rw [Literal.toValue, hvalues]
  exact ⟨rfl, rfl⟩

/-- The text of a regex is read as a literal for it. -/
theorem reads_readLiteral_regex {pattern : String} (ignoreCase : Bool) {query : String}
    (hbody : LiteralBody endsRegex pattern.toList)
    (hquery : Pattern.toEngine pattern ignoreCase = .ok query) {rest : List Char}
    (hrest : endsWord rest = true) :
  Reads readLiteral ((Value.regex pattern ignoreCase).chars ++ rest) fun literal behind =>
    literal.toValue = .ok (.regex pattern ignoreCase) ∧ behind = rest
  := by
  have hflags : ∀ c ∈ if ignoreCase then ['i'] else [], c.isAlpha = true := by
    cases ignoreCase <;> exact List.all_eq_true.1 rfl
  have htext : (Value.regex pattern ignoreCase).chars ++ rest
      = '/' :: pattern.toList ++ '/' :: ((if ignoreCase then ['i'] else []) ++ rest) := by
    simp [Value.chars, Value.printScalar]
  rw [htext]
  apply Reads.construct
  apply Reads.or_left
  apply Reads.map
  apply Reads.construct
  apply Reads.lexeme (regex_append hbody hflags hrest)
  refine ⟨?_, rfl⟩
  cases ignoreCase with
  | false => simp [Literal.toValue, RegexLiteral.toValue, hquery]
  | true => simp [Literal.toValue, RegexLiteral.toValue, hquery]

/-- Whether the text of a value is read as a literal for another value. -/
structure ReadsAsValue (v w : Value) : Prop where
  head : v.chars.head?.any (!isLayout ·) = true
  reads : ∀ rest, endsWord rest = true → Reads readLiteral (v.chars ++ rest)
    fun literal behind => literal.toValue = .ok w ∧ behind = rest

/-- The text of a value is read as a literal for what it means. -/
theorem readsAsValue {v : Value} (hv : v.Proper) :
  ReadsAsValue v v.reread
  := by
  obtain hv | ⟨items, rfl, hitems⟩ | ⟨pattern, ignoreCase, query, rfl, hbody, hquery⟩ := hv.cases
  · have hreread : v.reread = v.rereadAtom := by
      cases v with
      | list => cases hv
      | _ => rfl
    rw [hreread]
    constructor
    · exact head_of_isScalarStart (readsAsScalar hv).head
    · intro rest hrest
      exact reads_readLiteral_atom hv hrest
  · refine ⟨rfl, ?_⟩
    intro rest _
    exact reads_readLiteral_list (fun item hitem => readsAsScalar (hitems item hitem)) rest
  · refine ⟨rfl, ?_⟩
    intro rest hrest
    exact reads_readLiteral_regex ignoreCase hbody hquery hrest

/-- Where a value is missing nothing is read. -/
theorem refuses_readLiteral {cs : List Char}
    (h : ∀ c ∈ cs.head?, c = ')' ∨ c = '&' ∨ c = '|') :
  Refuses readLiteral cs
  := by
  have hne (c : Char) (hc : c ≠ ')' ∧ c ≠ '&' ∧ c ≠ '|') : cs.head? ≠ some c := by
    intro hhead
    have := h c hhead
    tauto
  apply Refuses.construct
  apply Refuses.or
  · exact refuses_readRegex (hne '/' (by decide))
  apply Refuses.or
  · apply Refuses.map
    apply Refuses.map
    apply refuses_readQuoted
    intro c hc
    obtain rfl | rfl | rfl := h c hc <;> decide
  apply Refuses.or
  · exact Refuses.map (refuses_readList (hne '[' (by decide)))
  apply Refuses.or
  · apply Refuses.map
    apply Refuses.construct
    apply Refuses.lexeme
    apply number_eq_none
    intro c hc
    obtain rfl | rfl | rfl := h c hc <;> decide
  apply Refuses.or
  · apply Refuses.map
    apply Refuses.construct
    apply Refuses.lexeme
    apply boolean_eq_none
    intro c hc
    obtain rfl | rfl | rfl := h c hc <;> decide
  · apply Refuses.map
    apply Refuses.construct
    apply Refuses.lexeme
    apply someRun_eq_none
    intro c hc
    obtain rfl | rfl | rfl := h c hc <;> decide

/-! ### Values that are read -/

/-- Whether a literal is a regex only if its slashes are where they should be. -/
def Literal.Closed : Literal → Prop
  | regex literal => LiteralBody endsRegex literal.body
  | _ => True

/-- Regexes that are read end where they should. -/
theorem finds_readLiteral :
  Finds readLiteral Literal.Closed
  := by
  have hother {α : Type} (x : Reader α) {make : α → Literal} (h : ∀ a, (make a).Closed) :
      Finds (make <$> x) Literal.Closed := by
    apply Finds.map
    apply (Finds.any x).mono
    intro a _
    exact h a
  apply Finds.construct
  apply Finds.or
  · apply Finds.map
    apply Finds.construct
    apply Finds.lexeme
    intro cs found h
    exact literalBody_of_regex h
  apply Finds.or
  · exact hother _ fun _ => trivial
  apply Finds.or
  · exact hother _ fun _ => trivial
  apply Finds.or
  · exact hother _ fun _ => trivial
  apply Finds.or
  · exact hother _ fun _ => trivial
  · exact hother _ fun _ => trivial

theorem Scalar.isAtom_toValue (scalar : Scalar) :
  scalar.toValue.IsAtom
  := by
  cases scalar <;> trivial

/-- The value of a literal is a proper one. -/
theorem Literal.proper_of_toValue {literal : Literal} (hclosed : literal.Closed) {v : Value}
    (hv : literal.toValue = .ok v) :
  v.Proper
  := by
  cases literal with
  | scalar scalar =>
    cases hv
    cases scalar <;> trivial
  | list items =>
    rw [toValue] at hv
    cases hvalues : items.mapM Item.toValue with
    | error e =>
      rw [hvalues] at hv
      cases hv
    | ok values =>
      rw [hvalues] at hv
      cases hv
      intro v hv
      obtain ⟨item, -, hitem⟩ := exists_of_forall₂ (forall₂_of_mapM_eq_ok hvalues).flip hv
      cases item with
      | scalar scalar =>
        cases hitem
        exact scalar.isAtom_toValue
      | malformed => cases hitem
  | regex literal =>
    rw [toValue, RegexLiteral.toValue] at hv
    split at hv
    case isTrue =>
      simp only at hv
      split at hv
      case h_1 query hquery =>
        cases hv
        refine ⟨?_, query, hquery⟩
        rw [String.toList_ofList]
        exact hclosed
      case h_2 => cases hv
    case isFalse => cases hv

end Syntax

end Sift
