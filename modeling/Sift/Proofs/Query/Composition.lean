import Sift.Proofs.Query.Spelled

/-!
# Parsing composite texts

A text is a shorthand if it is a lone quoted string, or a lone identifier that names neither a field
nor, by its form, a saved query: then it means something only as the whole text. Any other text that
is parsed denotes its tree in whatever text it stands (`Denoted`), so texts in parentheses are
parsed to what is made of the trees of their parts.
-/

namespace Sift

namespace Syntax

/-- Whether a text means a tree as a phrase, wherever it stands. -/
def Denoted (schema : Schema) (level : Level) (text : List Char) (q : Query) : Prop :=
  ∀ place, ∃ phrase, Spells level place text phrase ∧ phrase.Denotes schema q

namespace Denoted

variable {schema : Schema} {text text' gap gap' : List Char} {q r : Query}

/-- Parentheses around a text mean what it means. -/
theorem group (h : Denoted schema (.chain .or) text q) (hgap : IsGap gap) (hgap' : IsGap gap') :
  Denoted schema .primary ('(' :: (gap ++ (text ++ (gap' ++ [')'])))) q
  := by
  intro place
  obtain ⟨phrase, hphrase, hq⟩ := h (place + byteCount ('(' :: gap))
  exact ⟨_, .group hgap hgap' hphrase, hq⟩

theorem plain (h : Denoted schema .primary text q) :
  Denoted schema .operand text q
  := by
  intro place
  obtain ⟨phrase, hphrase, hq⟩ := h place
  exact ⟨phrase, .plain hphrase, hq⟩

/-- An exclamation mark before a text means the complement. -/
theorem not (h : Denoted schema .primary text q) :
  Denoted schema .operand ('!' :: text) q.negate
  := by
  intro place
  obtain ⟨phrase, hphrase, hq⟩ := h (place + byteCount ['!'])
  refine ⟨_, .not IsGap.nil hphrase, ?_⟩
  intro whole
  rw [Phrase.toQuery, hq whole]
  rfl

theorem denotes_chainPhrase {condition : Condition} {phrases : List Phrase} {qs : List Query}
    (h : List.Forall₂ (fun q phrase => Phrase.Denotes schema phrase q) qs phrases) :
  (chainPhrase condition phrases).Denotes schema (Query.chain condition qs)
  := by
  intro whole
  have hqs := allToQueries_eq_ok h whole
  cases condition with
  | and | or =>
    rw [chainPhrase, Phrase.toQuery, hqs]
    rfl

theorem only {condition : Condition} (h : Denoted schema (operandLevel condition) text q) :
  Denoted schema (.chain condition) text q
  := by
  intro place
  obtain ⟨phrase, hphrase, hq⟩ := h place
  exact ⟨_, .only hphrase, denotes_chainPhrase (.cons hq .nil)⟩

/-- Two texts with a sign between them mean the chain of what they mean. -/
theorem pair (condition : Condition) (h : Denoted schema (operandLevel condition) text q)
    (h' : Denoted schema (operandLevel condition) text' r) (hgap : IsGap gap)
    (hgap' : IsGap gap') :
  Denoted schema (.chain condition) (text ++ (gap ++ condition.token :: (gap' ++ text')))
    (Query.chain condition [q, r])
  := by
  intro place
  obtain ⟨phrase, hphrase, hq⟩ := h place
  obtain ⟨phrase', hphrase', hr⟩ :=
    h' (place + byteCount (text ++ (gap ++ condition.token :: gap')))
  refine ⟨_, .joined hphrase hgap hgap' (.only hphrase'), ?_⟩
  exact denotes_chainPhrase (.cons hq (.cons hr .nil))

/-- A text that means a tree is parsed to it. -/
theorem parseChars (h : Denoted schema (.chain .or) text q) :
  Query.parseChars schema text = .ok q
  := by
  obtain ⟨phrase, hphrase, hq⟩ := h 0
  have := Query.parseChars_of_spells IsGap.nil IsGap.nil hphrase (hq _)
  rwa [List.append_nil, List.nil_append] at this

end Denoted

end Syntax

namespace Query

open Syntax

variable {schema : Schema}

/-- Whether a text is a shorthand for a rule about the default field: a lone quoted string, or a
lone identifier that is neither a field nor the name of a saved query. -/
def IsShorthand (schema : Schema) (s : String) : Prop :=
  (quoted (Text.trim s.toList)).any (·.rest.isEmpty) = true
    ∨ isIdentifier (Text.trim s.toList) = true
      ∧ schema.hasField (String.ofList (Text.trim s.toList)) = false
      ∧ isReferenceName (Text.trim s.toList) = false

instance (schema : Schema) (s : String) : Decidable (IsShorthand schema s) :=
  inferInstanceAs (Decidable (_ ∨ _))

theorem isShorthand_quoted {gap gap' raw : List Char} {quote : Char} (hgap : IsGap gap)
    (hgap' : IsGap gap') (hquote : IsQuote quote) (hraw : LiteralBody (· = quote) raw) {s : String}
    (hs : s.toList = gap ++ (quote :: raw ++ [quote] ++ gap')) :
  IsShorthand schema s
  := by
  have hblank : Text.isBlank quote = false := by
    obtain rfl | rfl := hquote <;> rfl
  have htrim : Text.trim s.toList = quote :: raw ++ [quote] := by
    rw [hs]
    apply Text.trim_padded
    · exact fun c hc => Text.isBlank_of_isLayout (hgap c hc)
    · exact fun c hc => Text.isBlank_of_isLayout (hgap' c hc)
    · rintro _ ⟨⟩
      exact hblank
    · rw [List.getLast?_concat]
      rintro _ ⟨⟩
      exact hblank
    · simp
  left
  rw [htrim, quoted_eq_some_iff.2 ⟨quote, raw, [], hquote, hraw, rfl, rfl⟩]
  rfl

/-- A text that is parsed denotes its tree wherever it stands, unless it is blank or a shorthand. -/
theorem exists_denoted {s : String} {q : Query} (hblank : (Text.trim s.toList).isEmpty = false)
    (hshorthand : ¬IsShorthand schema s) (h : parse schema s = .ok q) :
  ∃ gap text gap', s.toList = gap ++ (text ++ gap') ∧ IsGap gap ∧ IsGap gap'
    ∧ Denoted schema (.chain .or) text q
  := by
  have hnonblank : ¬∀ c ∈ s.toList, Text.isBlank c = true := by
    rw [← Text.isEmpty_trim_iff, hblank]
    exact Bool.false_ne_true
  obtain ⟨hall, -⟩ | ⟨found, -, hspelled, hq⟩ := parseChars_inv h
  · exact absurd hall hnonblank
  generalize hcs : s.toList = cs at hspelled hq hnonblank
  cases hspelled with
  | blank hgap => exact absurd (fun c hc => Text.isBlank_of_isLayout (hgap c hc)) hnonblank
  | freeText hgap hgap' hquote hraw =>
    exact absurd (isShorthand_quoted hgap hgap' hquote hraw hcs) hshorthand
  | @phrase gap text gap' phrase hgap hgap' hphrase =>
    refine ⟨gap, text, gap', rfl, hgap, hgap', ?_⟩
    intro place
    obtain ⟨other, hother, hstripped⟩ := hphrase.shift place
    refine ⟨other, hother, ?_⟩
    intro whole
    rw [← Phrase.toQuery_stripped, hstripped, Phrase.toQuery_stripped]
    apply phrase.toQuery_whole _ hq
    intro name hname hwhole
    have hidentifier := hphrase.isIdentifier_of_mem name hname
    right
    by_contra hne
    simp only [not_or, Bool.not_eq_true] at hne
    rw [IsShorthand, hcs, ← hwhole] at hshorthand
    exact hshorthand (.inr ⟨hidentifier, hne⟩)

/-- Parsing is compositional: texts in parentheses with a sign between them are parsed to the chain
of the trees that they are parsed to, and an exclamation mark before a text in parentheses to the
complement of its tree. -/
theorem parse_composite {s t : String} {a b : Query}
    (hs : (Text.trim s.toList).isEmpty = false) (ht : (Text.trim t.toList).isEmpty = false)
    (hs' : ¬IsShorthand schema s) (ht' : ¬IsShorthand schema t)
    (ha : parse schema s = .ok a) (hb : parse schema t = .ok b) :
  parse schema ("(" ++ s ++ ") & (" ++ t ++ ")") = .ok (chain .and [a, b])
    ∧ parse schema ("(" ++ s ++ ") | (" ++ t ++ ")") = .ok (chain .or [a, b])
    ∧ parse schema ("!(" ++ s ++ ")") = .ok a.negate
  := by
  obtain ⟨gap₁, text₁, gap₁', hstext, hgap₁, hgap₁', ha⟩ := exists_denoted hs hs' ha
  obtain ⟨gap₂, text₂, gap₂', httext, hgap₂, hgap₂', hb⟩ := exists_denoted ht ht' hb
  have hspace : IsGap [' '] := List.forall_mem_singleton.2 rfl
  have hgroup := ha.group hgap₁ hgap₁'
  have ha := hgroup.plain
  have hb := (hb.group hgap₂ hgap₂').plain
  refine ⟨?_, ?_, ?_⟩
  · have := (Denoted.pair .and ha hb hspace hspace).only.parseChars
    simpa [parse, hstext, httext, Condition.token] using this
  · have := (Denoted.pair .or ha.only hb.only hspace hspace).parseChars
    simpa [parse, hstext, httext, Condition.token] using this
  · have := hgroup.not.only.only.parseChars
    simpa [parse, hstext] using this

/-- The first text is a disjunction, the second one a conjunction with a sign in a literal. -/
theorem parse_composite_people :
  ∃ a b, parse people "age>=1|!OLD " = .ok a ∧ parse people "name in [\"a)&\"]&(age exists)" = .ok b
    ∧ parse people ("(" ++ "age>=1|!OLD " ++ ") & (" ++ "name in [\"a)&\"]&(age exists)" ++ ")")
      = .ok (chain .and [a, b])
    ∧ parse people ("(" ++ "age>=1|!OLD " ++ ") | (" ++ "name in [\"a)&\"]&(age exists)" ++ ")")
      = .ok (chain .or [a, b])
    ∧ parse people ("!(" ++ "age>=1|!OLD " ++ ")") = .ok a.negate
  := by
  have ha : parse people "age>=1|!OLD " = .ok (.join .or [.ofRule ⟨"age", .gte, some (.number
      (Number.ofNat 1))⟩, .reference { name := "OLD", negated := true }]) := by
    decide +kernel
  have hb : parse people "name in [\"a)&\"]&(age exists)" = .ok (.join .and [.ofRule ⟨"name", .isIn,
      some (.list [.string "a)&"])⟩, .ofRule ⟨"age", .present, none⟩]) := by
    decide +kernel
  refine ⟨_, _, ha, hb, parse_composite ?_ ?_ ?_ ?_ ha hb⟩
  all_goals decide +kernel

end Query

end Sift
