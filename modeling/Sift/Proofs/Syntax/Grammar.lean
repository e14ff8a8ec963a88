import Sift.Proofs.Pattern.Letter
import Sift.Proofs.Query.Reading
import Sift.Proofs.Syntax.Lexeme
import Sift.Proofs.Syntax.Taken

/-!
# The grammar of queries

`Spells level place text phrase` says that `text`, which begins at the byte `place`, spells a phrase
on a level of the grammar, whatever stands around it. A phrase that is spelled in one place is
spelled in any other, up to the places that it knows (`Spells.shift`): two phrases are alike if they
are the same when they are `stripped` of places and of the case of their operators, and then they
mean the same trees (`Phrase.toQuery_stripped`).
-/

namespace Sift

namespace Syntax

open Reader

/-! ### Literals -/

/-- Whether a text spells a literal that may stand in a list. -/
inductive Scalar.Spelled : Scalar → List Char → Prop where
  | quoted {quote : Char} {raw : List Char} (hquote : IsQuote quote)
      (hraw : LiteralBody (· = quote) raw) : Spelled (.quoted raw) (quote :: raw ++ [quote])
  | word {text : List Char} (htext : IsWord text) : Spelled (wordScalar text) text

/-- Whether a text spells a list item that is a literal. -/
inductive Item.Spelled : Item → List Char → Prop where
  | scalar {s : Scalar} {text : List Char} (h : s.Spelled text) : Spelled (.scalar s) text

/-- Whether a text spells a literal. -/
inductive Literal.Spelled : Literal → List Char → Prop where
  | scalar {s : Scalar} {text : List Char} (h : s.Spelled text) : Spelled (.scalar s) text
  | regex {body flags : List Char} (hbody : LiteralBody endsRegex body)
      (hflags : ∀ c ∈ flags, c.isAlpha = true) :
      Spelled (.regex ⟨body, flags⟩) ('/' :: body ++ '/' :: flags)
  | empty {gap : List Char} (hgap : IsGap gap) : Spelled (.list []) ('[' :: (gap ++ [']']))
  | list {place : Nat} {gap text gap' : List Char} {items : List Item} (hgap : IsGap gap)
      (hgap' : IsGap gap')
      (hitems : Joined ',' (fun _ text item => Item.Spelled item text) place text items) :
      Spelled (.list items) ('[' :: (gap ++ (text ++ (gap' ++ [']']))))

/-- Whether what stands behind an operator spells the value that a comparison has. -/
inductive ValueSpelled : Option Literal → List Char → Prop where
  | none : ValueSpelled none []
  | some {gap text : List Char} {literal : Literal} (hgap : IsGap gap)
      (h : literal.Spelled text) : ValueSpelled (some literal) (gap ++ text)

/-! ### Phrases -/

/-- The levels of the grammar of phrases. -/
inductive Level where
  | primary
  | operand
  | chain (condition : Condition)

/-- The level of the operands of a chain. -/
def operandLevel : Condition → Level
  | .and => .operand
  | .or => .chain .and

/-- The phrase of a chain. -/
def chainPhrase : Condition → List Phrase → Phrase
  | .and => .allOf
  | .or => .anyOf

/-- Whether a text that begins at a place spells a phrase. A word can be an operator only behind
layout, since it would be a part of the field. -/
inductive Spells : Level → Nat → List Char → Phrase → Prop where
  | name {place : Nat} {text : List Char} (htext : isIdentifier text = true) :
      Spells .primary place text (.name text place)
  | comparison {place : Nat} {field gap op tail : List Char} {value : Option Literal}
      (hfield : isIdentifier field = true) (hgap : IsGap gap)
      (hfresh : gap = [] → Stops Char.isAlpha op) (hop : OperatorBefore op tail)
      (htail : ValueSpelled value tail) :
      Spells .primary place (field ++ (gap ++ (op ++ tail)))
        (.comparison field op (place + byteCount (field ++ (gap ++ op))) value)
  | empty {place : Nat} {gap : List Char} (hgap : IsGap gap) :
      Spells .primary place ('(' :: (gap ++ [')'])) .empty
  | group {place : Nat} {gap text gap' : List Char} {phrase : Phrase} (hgap : IsGap gap)
      (hgap' : IsGap gap')
      (h : Spells (.chain .or) (place + byteCount ('(' :: gap)) text phrase) :
      Spells .primary place ('(' :: (gap ++ (text ++ (gap' ++ [')'])))) (.group phrase)
  | plain {place : Nat} {text : List Char} {phrase : Phrase}
      (h : Spells .primary place text phrase) : Spells .operand place text phrase
  | not {place : Nat} {gap text : List Char} {phrase : Phrase} (hgap : IsGap gap)
      (h : Spells .primary (place + byteCount ('!' :: gap)) text phrase) :
      Spells .operand place ('!' :: (gap ++ text)) (.not phrase)
  | only {condition : Condition} {place : Nat} {text : List Char} {phrase : Phrase}
      (h : Spells (operandLevel condition) place text phrase) :
      Spells (.chain condition) place text (chainPhrase condition [phrase])
  | joined {condition : Condition} {place : Nat} {text gap gap' texts : List Char}
      {phrase : Phrase} {phrases : List Phrase}
      (h : Spells (operandLevel condition) place text phrase) (hgap : IsGap gap)
      (hgap' : IsGap gap')
      (hothers : Spells (.chain condition)
        (place + byteCount (text ++ (gap ++ condition.token :: gap'))) texts
        (chainPhrase condition phrases)) :
      Spells (.chain condition) place (text ++ (gap ++ condition.token :: (gap' ++ texts)))
        (chainPhrase condition (phrase :: phrases))

/-! ### Where texts begin -/

theorem isBare_of_isLayout {c : Char} (h : isLayout c = true) :
  isBare c = false
  := by
  obtain rfl | rfl | rfl | rfl := isLayout_cases h <;> rfl

theorem not_isLayout_of_isBare {c : Char} (h : isBare c = true) :
  isLayout c = false
  := by
  by_contra hne
  rw [isBare_of_isLayout (by simpa using hne)] at h
  cases h

theorem not_isOperatorSign_of_isLayout {c : Char} (h : isLayout c = true) :
  isOperatorSign c = false
  := by
  obtain rfl | rfl | rfl | rfl := isLayout_cases h <;> rfl

theorem IsWord.head {text : List Char} (h : IsWord text) :
  ∃ c rest, text = c :: rest ∧ isBare c = true
  := by
  cases text with
  | nil => exact absurd rfl h.ne_nil
  | cons c text => exact ⟨c, text, rfl, h.all_isBare c (by simp)⟩

/-- A literal that stands in a list shows at its beginning that the list goes on. -/
theorem Scalar.Spelled.head {s : Scalar} {text : List Char} (h : s.Spelled text) :
  text.head?.any (fun c => !isLayout c && c ≠ ']') = true
  := by
  cases h with
  | quoted hquote => obtain rfl | rfl := hquote <;> rfl
  | word htext =>
    obtain ⟨c, rest, rfl, hc⟩ := htext.head
    have hne : c ≠ ']' := by
      rintro rfl
      cases hc
    simp [not_isLayout_of_isBare hc, hne]

theorem Scalar.Spelled.head_not_isLayout {s : Scalar} {text : List Char} (h : s.Spelled text) :
  text.head?.any (!isLayout ·) = true
  := by
  have := h.head
  cases text with
  | nil => cases this
  | cons c text =>
    rw [List.head?_cons, Option.any_some, Bool.and_eq_true] at this
    exact this.1

theorem Literal.Spelled.head_not_isLayout {literal : Literal} {text : List Char}
    (h : literal.Spelled text) :
  text.head?.any (!isLayout ·) = true
  := by
  cases h with
  | scalar h => exact h.head_not_isLayout
  | regex | empty | list => rfl

theorem OperatorBefore.head {token next : List Char} (h : OperatorBefore token next) :
  ∃ c rest, token = c :: rest ∧ (c.isAlpha = true ∨ isOperatorSign c = true)
  := by
  cases h with
  | @word _ next hne hword =>
    obtain ⟨c, rest, rfl⟩ := List.exists_cons_of_ne_nil hne
    exact ⟨c, rest, rfl, .inl (hword c (by simp))⟩
  | negated => exact ⟨_, _, rfl, .inr rfl⟩
  | signs hne hsigns =>
    obtain ⟨c, rest, rfl⟩ := List.exists_cons_of_ne_nil hne
    exact ⟨c, rest, rfl, .inr (hsigns c (by simp))⟩

theorem OperatorBefore.head_not_isLayout {token next : List Char} (h : OperatorBefore token next) :
  token.head?.any (!isLayout ·) = true
  := by
  obtain ⟨c, rest, rfl, hc | hc⟩ := h.head
  · simp [not_isLayout_of_isBare (isBare_of_isAlpha hc)]
  · obtain rfl | rfl | rfl | rfl | rfl | rfl | rfl | rfl | rfl := isOperatorSign_cases hc <;> rfl

/-- A phrase begins as an operand does. -/
theorem Spells.head {level : Level} {place : Nat} {text : List Char} {phrase : Phrase}
    (h : Spells level place text phrase) :
  text.head?.any isOperandStart = true
  := by
  have happend {text : List Char} (h : text.head?.any isOperandStart = true)
      (rest : List Char) : (text ++ rest).head?.any isOperandStart = true := by
    cases text with
    | nil => cases h
    | cons c text => exact h
  induction h with
  | name htext => exact identifier_head htext
  | comparison hfield => exact happend (identifier_head hfield) _
  | empty | group | not => rfl
  | plain _ ih | only _ ih => exact ih
  | joined _ _ _ _ ih => exact happend ih _

/-! ### Phrases without places -/

mutual

/-- A phrase that knows no places, with its operators in lower case. -/
def Phrase.stripped : Phrase → Phrase
  | .anyOf operands => .anyOf (strippedAll operands)
  | .allOf operands => .allOf (strippedAll operands)
  | .not operand => .not operand.stripped
  | .empty => .empty
  | .group inner => .group inner.stripped
  | .comparison field operator _ value =>
    .comparison field (operator.map Char.toLower) 0 value
  | .name text _ => .name text 0

/-- Some phrases that know no places, with their operators in lower case. -/
def strippedAll : List Phrase → List Phrase
  | [] => []
  | phrase :: rest => phrase.stripped :: strippedAll rest

end

theorem strippedAll_eq_map (phrases : List Phrase) :
  strippedAll phrases = phrases.map Phrase.stripped
  := by
  induction phrases with
  | nil => rfl
  | cons _ _ ih => rw [strippedAll, ih, List.map_cons]

theorem stripped_chainPhrase (condition : Condition) (phrases : List Phrase) :
  (chainPhrase condition phrases).stripped = chainPhrase condition (phrases.map Phrase.stripped)
  := by
  rw [← strippedAll_eq_map]
  cases condition <;> rfl

theorem chainPhrase_inj {condition : Condition} {phrases others : List Phrase} :
  chainPhrase condition phrases = chainPhrase condition others ↔ phrases = others
  := by
  cases condition <;> simp [chainPhrase]

theorem Spells.exists_chainPhrase {condition : Condition} {place : Nat} {text : List Char}
    {phrase : Phrase} (h : Spells (.chain condition) place text phrase) :
  ∃ phrases, phrase = chainPhrase condition phrases
  := by
  cases h with
  | only => exact ⟨_, rfl⟩
  | joined => exact ⟨_, rfl⟩

/-- A phrase that is spelled in one place is spelled in any other. -/
theorem Spells.shift {level : Level} {place : Nat} {text : List Char} {phrase : Phrase}
    (h : Spells level place text phrase) (place' : Nat) :
  ∃ phrase', Spells level place' text phrase' ∧ phrase'.stripped = phrase.stripped
  := by
  induction h generalizing place' with
  | name htext => exact ⟨_, .name htext, rfl⟩
  | comparison hfield hgap hfresh hop htail =>
    exact ⟨_, .comparison hfield hgap hfresh hop htail, rfl⟩
  | empty hgap => exact ⟨_, .empty hgap, rfl⟩
  | @group _ gap _ _ _ hgap hgap' _ ih =>
    obtain ⟨phrase', h, hphrase⟩ := ih (place' + byteCount ('(' :: gap))
    exact ⟨_, .group hgap hgap' h, by rw [Phrase.stripped, Phrase.stripped, hphrase]⟩
  | plain _ ih =>
    obtain ⟨phrase', h, hphrase⟩ := ih place'
    exact ⟨_, .plain h, hphrase⟩
  | @not _ gap _ _ hgap _ ih =>
    obtain ⟨phrase', h, hphrase⟩ := ih (place' + byteCount ('!' :: gap))
    exact ⟨_, .not hgap h, by rw [Phrase.stripped, Phrase.stripped, hphrase]⟩
  | only _ ih =>
    obtain ⟨phrase', h, hphrase⟩ := ih place'
    refine ⟨_, .only h, ?_⟩
    simp only [stripped_chainPhrase, List.map_cons, List.map_nil, hphrase]
  | @joined condition _ text gap gap' _ _ _ _ hgap hgap' _ ih ihs =>
    obtain ⟨phrase', h, hphrase⟩ := ih place'
    obtain ⟨_, hothers, hstripped⟩ :=
      ihs (place' + byteCount (text ++ (gap ++ condition.token :: gap')))
    obtain ⟨others, rfl⟩ := hothers.exists_chainPhrase
    rw [stripped_chainPhrase, stripped_chainPhrase, chainPhrase_inj] at hstripped
    refine ⟨_, .joined h hgap hgap' hothers, ?_⟩
    simp only [stripped_chainPhrase, List.map_cons, hphrase, hstripped]

/-! ### What phrases mean -/

theorem toLower_toLower (c : Char) :
  c.toLower.toLower = c.toLower
  := by
  rw [← Char.toNat_inj, Pattern.toNat_toLower, Pattern.toNat_toLower]
  grind

theorem ofToken?_toLower (token : List Char) :
  Operator.ofToken? (String.ofList (token.map Char.toLower))
    = Operator.ofToken? (String.ofList token)
  := by
  have hlower : Text.lowercaseAscii (String.ofList (token.map Char.toLower))
      = Text.lowercaseAscii (String.ofList token) := by
    apply String.toList_injective
    rw [Text.lowercaseAscii, Text.lowercaseAscii, String.toList_map, String.toList_map,
      String.toList_ofList, String.toList_ofList, List.map_map]
    exact List.map_congr_left fun c _ => toLower_toLower c
  rw [Operator.ofToken?, Operator.ofToken?, hlower]

section Trees

variable {schema : Schema} {whole : List Char} {q : Query}

theorem allToQueries_cons_eq_ok_iff {phrase : Phrase} {rest : List Phrase} {qs : List Query} :
  allToQueries schema whole (phrase :: rest) = .ok qs
    ↔ ∃ q others, phrase.toQuery schema whole = .ok q
      ∧ allToQueries schema whole rest = .ok others ∧ q :: others = qs
  := by
  rw [allToQueries]
  cases phrase.toQuery schema whole with
  | error e => simp
  | ok q => simp [map_eq_ok_iff]

theorem comparisonRule_eq_ok_iff {field operator : List Char} {operatorEnd : Nat}
    {value : Option Literal} :
  comparisonRule schema field (operator.map Char.toLower) 0 value = .ok q
    ↔ comparisonRule schema field operator operatorEnd value = .ok q
  := by
  simp only [comparisonRule, ofToken?_toLower]
  split
  · simp
  · split
    · simp
    · split
      · rfl
      · split <;> simp

theorem shorthand_eq_ok_iff {text : List Char} {place place' : Nat} :
  shorthand schema text place = .ok q ↔ shorthand schema text place' = .ok q
  := by
  rw [shorthand, shorthand]
  split <;> simp

theorem nameQuery_eq_ok_iff {text : List Char} {start start' : Nat} :
  nameQuery schema whole text start = .ok q ↔ nameQuery schema whole text start' = .ok q
  := by
  simp only [nameQuery]
  split
  · simp
  · split
    · rfl
    · split
      · exact shorthand_eq_ok_iff
      · simp

mutual

/-- What a phrase means does not depend on the places that it knows. -/
theorem Phrase.toQuery_stripped (phrase : Phrase) {q : Query} :
  phrase.stripped.toQuery schema whole = .ok q ↔ phrase.toQuery schema whole = .ok q
  := by
  cases phrase with
  | anyOf operands | allOf operands =>
    simp only [Phrase.stripped, Phrase.toQuery, map_eq_ok_iff, allToQueries_strippedAll operands]
  | not operand =>
    simp only [Phrase.stripped, Phrase.toQuery, map_eq_ok_iff, operand.toQuery_stripped]
  | empty => rfl
  | group inner =>
    simp only [Phrase.stripped, Phrase.toQuery]
    exact inner.toQuery_stripped
  | comparison field operator operatorEnd value =>
    simp only [Phrase.stripped, Phrase.toQuery]
    exact comparisonRule_eq_ok_iff
  | name text start =>
    simp only [Phrase.stripped, Phrase.toQuery]
    exact nameQuery_eq_ok_iff

/-- What some phrases mean does not depend on the places that they know. -/
theorem allToQueries_strippedAll (phrases : List Phrase) {qs : List Query} :
  allToQueries schema whole (strippedAll phrases) = .ok qs
    ↔ allToQueries schema whole phrases = .ok qs
  := by
  cases phrases with
  | nil => rfl
  | cons phrase rest =>
    simp only [strippedAll, allToQueries_cons_eq_ok_iff, phrase.toQuery_stripped,
      allToQueries_strippedAll rest]

end

/-! ### The text around a phrase -/

mutual

/-- The lone identifiers of a phrase. -/
def Phrase.names : Phrase → List (List Char)
  | .anyOf operands => namesOfAll operands
  | .allOf operands => namesOfAll operands
  | .not operand => operand.names
  | .empty => []
  | .group inner => inner.names
  | .comparison .. => []
  | .name text _ => [text]

/-- The lone identifiers of some phrases. -/
def namesOfAll : List Phrase → List (List Char)
  | [] => []
  | phrase :: rest => phrase.names ++ namesOfAll rest

end

/-- Whether an identifier means the same in two texts. -/
def MeansSame (schema : Schema) (whole whole' text : List Char) : Prop :=
  text = whole → text = whole' ∨ schema.hasField (String.ofList text) = true
    ∨ isReferenceName text = true

theorem MeansSame.nameQuery {whole' text : List Char} (h : MeansSame schema whole whole' text)
    {start : Nat} (hq : nameQuery schema whole text start = .ok q) :
  nameQuery schema whole' text start = .ok q
  := by
  simp only [Syntax.nameQuery] at hq ⊢
  split at hq
  · cases hq
  case isFalse hfield =>
    rw [if_neg hfield]
    split at hq
    case isTrue hname => rwa [if_pos hname]
    case isFalse hname =>
      rw [if_neg hname]
      split at hq
      case isTrue hwhole =>
        obtain hwhole' | hfield' | hname' := h hwhole
        · rwa [if_pos hwhole']
        · exact absurd hfield' hfield
        · exact absurd hname' hname
      case isFalse => cases hq

mutual

/-- A phrase means the same in two texts if its identifiers do. -/
theorem Phrase.toQuery_whole (phrase : Phrase) {whole' : List Char} {q : Query}
    (h : ∀ text ∈ phrase.names, MeansSame schema whole whole' text)
    (hq : phrase.toQuery schema whole = .ok q) :
  phrase.toQuery schema whole' = .ok q
  := by
  cases phrase with
  | anyOf operands | allOf operands =>
    simp only [Phrase.toQuery, map_eq_ok_iff] at hq ⊢
    obtain ⟨qs, hqs, rfl⟩ := hq
    exact ⟨qs, allToQueries_whole operands h hqs, rfl⟩
  | not operand =>
    simp only [Phrase.toQuery, map_eq_ok_iff] at hq ⊢
    obtain ⟨inner, hinner, rfl⟩ := hq
    exact ⟨inner, operand.toQuery_whole h hinner, rfl⟩
  | empty => exact hq
  | group inner =>
    rw [Phrase.toQuery] at hq ⊢
    exact inner.toQuery_whole h hq
  | comparison => exact hq
  | name text start =>
    rw [Phrase.toQuery] at hq ⊢
    exact (h text (List.mem_singleton_self _)).nameQuery hq

/-- Some phrases mean the same in two texts if their identifiers do. -/
theorem allToQueries_whole (phrases : List Phrase) {whole' : List Char} {qs : List Query}
    (h : ∀ text ∈ namesOfAll phrases, MeansSame schema whole whole' text)
    (hqs : allToQueries schema whole phrases = .ok qs) :
  allToQueries schema whole' phrases = .ok qs
  := by
  cases phrases with
  | nil => exact hqs
  | cons phrase rest =>
    rw [namesOfAll, List.forall_mem_append] at h
    rw [allToQueries_cons_eq_ok_iff] at hqs ⊢
    obtain ⟨q, others, hq, hothers, rfl⟩ := hqs
    exact ⟨q, others, phrase.toQuery_whole h.1 hq, allToQueries_whole rest h.2 hothers, rfl⟩

end

end Trees

end Syntax

end Sift
