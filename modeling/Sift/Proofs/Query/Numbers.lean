import Sift.Proofs.Query.Path
import Sift.Proofs.Query.Spelled

/-!
# Numbers that are read again

`Query.valueAt?` reads a value at its place in a tree. When a tree that has been parsed is written
down and parsed again, its values have become what their texts mean, and everything else is as it
was (`Parsed.rereads`). So in the place of a number there is a number again, if it is finite, and
its text as a string if it is not (`Query.valueAt?_of_parse_print`).
-/

namespace Sift

/-! ### Places in values -/

namespace Value

variable {v : Value} {inner : List Nat} {x : Number}

/-- The value at a path inside a value. -/
def at? : Value → List Nat → Option Value
  | v, [] => some v
  | list items, i :: inner =>
    match items[i]? with
    | some item => item.at? inner
    | none => none
  | _, _ :: _ => none

theorem at?_list (items : List Value) (i : Nat) (inner : List Nat) :
  (list items).at? (i :: inner) = items[i]?.bind (at? · inner)
  := by
  rw [at?]
  cases items[i]? <;> rfl

/-- The numbers in a value are those at the paths inside it. -/
theorem mem_numbers_iff :
  x ∈ v.numbers ↔ ∃ inner, v.at? inner = some (number x)
  := by
  induction v with
  | list items ih =>
    rw [numbers, numbersOfItems_eq_flatMap, List.mem_flatMap]
    constructor
    · rintro ⟨item, hitem, hx⟩
      obtain ⟨i, hi⟩ := List.getElem?_of_mem hitem
      obtain ⟨inner, hinner⟩ := (ih item hitem).mp hx
      use i :: inner
      rw [at?_list, hi, Option.bind_some, hinner]
    · rintro ⟨_ | ⟨i, inner⟩, hinner⟩
      · cases hinner
      · rw [at?_list] at hinner
        obtain ⟨item, hi, hitem⟩ := Option.bind_eq_some_iff.mp hinner
        have hmem := List.mem_of_getElem? hi
        exact ⟨item, hmem, (ih item hmem).mpr ⟨inner, hitem⟩⟩
  | number y =>
    rw [numbers, List.mem_singleton]
    constructor
    · rintro rfl
      exact ⟨[], rfl⟩
    · rintro ⟨_ | _, ⟨⟩⟩
      rfl
  | string | bool | regex =>
    refine ⟨by rintro ⟨⟩, ?_⟩
    rintro ⟨_ | _, ⟨⟩⟩

theorem IsAtom.at?_inv {w : Value} (hv : v.IsAtom) (h : v.at? inner = some w) :
  inner = [] ∧ v = w
  := by
  cases inner with
  | nil =>
    cases h
    exact ⟨rfl, rfl⟩
  | cons i inner =>
    cases v with
    | list => cases hv
    | _ => cases h

/-- In the place of a number there is what its text means. -/
theorem at?_reread (hv : v.Proper) (h : v.at? inner = some (number x)) :
  v.reread.at? inner = some (number x).rereadAtom
  := by
  obtain hatom | ⟨items, rfl, hitems⟩ | ⟨pattern, ignoreCase, -, rfl, -⟩ := hv.cases
  · obtain ⟨rfl, rfl⟩ := hatom.at?_inv h
    rfl
  · cases inner with
    | nil => cases h
    | cons i inner =>
      rw [at?_list] at h
      obtain ⟨item, hi, hitem⟩ := Option.bind_eq_some_iff.mp h
      obtain ⟨rfl, rfl⟩ := (hitems item (List.mem_of_getElem? hi)).at?_inv hitem
      rw [reread, at?_list, List.getElem?_map, hi]
      rfl
  · cases inner <;> cases h

end Value

/-! ### Places in trees -/

namespace Query

variable {q : Query} {path inner : List Nat} {x : Number}

/-- The value at a path inside the value of the rule at a path in a tree. -/
def valueAt? (q : Query) (path inner : List Nat) : Option Value :=
  match q.at? path with
  | some (rule x _) => x.value.bind (Value.at? · inner)
  | _ => none

theorem valueAt?_eq_some_iff {v : Value} :
  q.valueAt? path inner = some v
    ↔ ∃ x origin w, q.at? path = some (rule x origin) ∧ x.value = some w ∧ w.at? inner = some v
  := by
  rw [valueAt?]
  split
  case h_1 x origin hat =>
    rw [Option.bind_eq_some_iff]
    simp [hat]
  case h_2 hother =>
    constructor
    · rintro ⟨⟩
    · rintro ⟨x, origin, w, hat, -⟩
      exact absurd hat (hother x origin)

theorem mem_numbers_iff_nodes :
  x ∈ q.numbers ↔ ∃ y origin, .rule y origin ∈ q.nodes ∧ x ∈ y.numbers
  := by
  rw [numbers, List.mem_flatMap]
  constructor
  · rintro ⟨node, hnode, hx⟩
    cases node with
    | rule y origin => exact ⟨y, origin, hnode, hx⟩
    | group | reference => cases hx
  · rintro ⟨y, origin, hnode, hx⟩
    exact ⟨_, hnode, hx⟩

/-- The numbers in a tree are those at the places in it. -/
theorem mem_numbers_iff :
  x ∈ q.numbers ↔ ∃ path inner, q.valueAt? path inner = some (.number x)
  := by
  simp only [mem_numbers_iff_nodes, valueAt?_eq_some_iff, mem_nodes_iff, Rule.numbers]
  constructor
  · rintro ⟨y, origin, ⟨path, hpath⟩, hx⟩
    cases hvalue : y.value with
    | none => simp [hvalue] at hx
    | some w =>
      rw [hvalue] at hx
      obtain ⟨inner, hinner⟩ := Value.mem_numbers_iff.mp hx
      exact ⟨path, inner, y, origin, w, hpath, hvalue, hinner⟩
  · rintro ⟨path, inner, y, origin, w, hpath, hvalue, hinner⟩
    refine ⟨y, origin, ⟨path, hpath⟩, ?_⟩
    rw [hvalue]
    exact Value.mem_numbers_iff.mpr ⟨inner, hinner⟩

/-! ### Reading again -/

theorem at?_mapValues (f : Value → Value) (q : Query) (path : List Nat) :
  (q.mapValues f).at? path = (q.at? path).map (mapValues f)
  := by
  induction path generalizing q with
  | nil => rfl
  | cons i path ih =>
    cases q with
    | rule | reference => rfl
    | group condition negated children origin =>
      rw [mapValues, mapAll_eq_map, at?_group, at?_group, List.getElem?_map]
      cases children[i]? with
      | none => rfl
      | some child => exact ih child

variable {schema : Schema}

/-- Where a number has stood, there is what its text means when the tree is read again. -/
theorem Parsed.valueAt?_mapValues (h : q.Parsed schema)
    (hx : q.valueAt? path inner = some (.number x)) :
  (q.mapValues Value.reread).valueAt? path inner = some (Value.number x).rereadAtom
  := by
  obtain ⟨y, origin, w, hat, hvalue, hinner⟩ := valueAt?_eq_some_iff.mp hx
  have hproper : w.Proper := by
    cases h.at? hat with
    | rule hy => exact hy.value w hvalue
  rw [valueAt?_eq_some_iff]
  refine ⟨{ y with value := y.value.map Value.reread }, origin, w.reread, ?_, ?_,
    Value.at?_reread hproper hinner⟩
  · rw [at?_mapValues, hat]
    rfl
  · rw [hvalue, Option.map_some]

theorem toQuery_only (condition : Condition) (phrase : Syntax.Phrase) (whole : List Char) :
  (Syntax.chainPhrase condition [phrase]).toQuery schema whole = phrase.toQuery schema whole
  := by
  cases condition with
  | and | or =>
    simp only [Syntax.chainPhrase, Syntax.Phrase.toQuery, Syntax.allToQueries]
    cases phrase.toQuery schema whole <;> rfl

/-- A phrase is a tree that a text can state, unless it is a lone identifier that is looked for in
the default field. -/
theorem parsed_or_shorthand_of_spells {gap text gap' : List Char} {phrase : Syntax.Phrase}
    (hgap : Syntax.IsGap gap) (hgap' : Syntax.IsGap gap')
    (hfound : Syntax.sentence (gap ++ (text ++ gap')) = .ok (.phrase phrase))
    (hphrase : Syntax.Spells (.chain .or) (Syntax.byteCount gap) text phrase)
    (h : phrase.toQuery schema (Text.trim (gap ++ (text ++ gap'))) = .ok q) :
  q.Parsed schema ∨ ∃ literal place, Syntax.shorthand schema literal place = .ok q
  := by
  by_cases hlone : Syntax.isIdentifier text = true
  case pos =>
    -- The only phrase that an identifier spells is a name.
    have hname : Syntax.Spells (.chain .or) (Syntax.byteCount gap) text (Syntax.chainPhrase .or
        [Syntax.chainPhrase .and [.name text (Syntax.byteCount gap)]]) :=
      .only (.only (.plain (.name hlone)))
    obtain ⟨other, hother, hstripped⟩ := Syntax.sentence_of_spells hname hgap hgap'
    cases hfound.symm.trans hother
    rw [← Syntax.Phrase.toQuery_stripped, hstripped, Syntax.Phrase.toQuery_stripped, toQuery_only,
      toQuery_only, Syntax.Phrase.toQuery] at h
    obtain hparsed | ⟨-, -, hshorthand⟩ := Parsed.nameQuery_or_shorthand h
    · exact .inl hparsed
    · exact .inr ⟨_, _, hshorthand⟩
  case neg =>
    -- No name is the whole text, so the phrase means the same where a name that is one for a saved
    -- query is.
    have hanywhere : phrase.toQuery schema ['A'] = .ok q := by
      apply phrase.toQuery_whole _ h
      intro name hname hwhole
      rw [hphrase.eq_of_whole hname hwhole] at hlone
      exact absurd (hphrase.isIdentifier_of_mem name hname) hlone
    left
    apply Canonical.of_toQuery _ _ _ (Syntax.written_of_sentence hfound) hanywhere
    · intro x operator hx hoperator
      exact hx.negated hoperator
    · intro _ _ _ _ _ hfield hvalue hrule
      exact Parsed.comparisonRule hfield hvalue hrule
    · intro text start q hq
      obtain hparsed | ⟨hname, rfl, -⟩ := Parsed.nameQuery_or_shorthand hq
      · exact hparsed
      · cases hname

/-- What is parsed is a tree that a text can state, or else a text without operators that is looked
for in the default field. -/
theorem parsed_or_shorthand {s : String} (h : parse schema s = .ok q) :
  q.Parsed schema ∨ ∃ literal place, Syntax.shorthand schema literal place = .ok q
  := by
  rw [parse] at h
  generalize s.toList = cs at h
  obtain ⟨-, rfl⟩ | ⟨found, hfound, hspelled, hq⟩ := parseChars_inv h
  · exact .inl (.empty false)
  · cases hspelled with
    | blank =>
      cases hq
      exact .inl (.empty false)
    | freeText => exact .inr ⟨_, _, hq⟩
    | phrase hgap hgap' hphrase =>
      exact parsed_or_shorthand_of_spells hgap hgap' hfound hphrase hq

/-- A text that is looked for is no number. -/
theorem numbers_of_shorthand {literal : List Char} {place : Nat}
    (h : Syntax.shorthand schema literal place = .ok q) :
  q.numbers = []
  := by
  rw [Syntax.shorthand] at h
  split at h
  case h_1 => cases h
  case h_2 =>
    cases h
    rfl

/-- When the text of a tree that has been parsed is parsed, there is a number again in the place of
a number if it is finite, and a word if it is not. -/
theorem valueAt?_of_parse_print {s : String} (h : parse schema s = .ok q)
    (hx : q.valueAt? path inner = some (.number x)) (style : Style) :
  ∃ r, parse schema (q.print style) = .ok r
    ∧ r.valueAt? path inner
      = some (if x.isFinite then .number x.unsignZero else .string x.text)
  := by
  obtain hparsed | ⟨literal, place, hshorthand⟩ := parsed_or_shorthand h
  · exact ⟨_, (hparsed.rereads style).parse_print, hparsed.valueAt?_mapValues hx⟩
  · have hnumbers := mem_numbers_iff.mpr ⟨path, inner, hx⟩
    rw [numbers_of_shorthand hshorthand] at hnumbers
    cases hnumbers

end Query

end Sift
