import Sift.Proofs.Syntax.Soundness

/-!
# Places in a text

A number of bytes leads to a place in a text if so many bytes stand before one of its characters, or
before its end (`IsPlace`). A reader that starts at such a place ends at one, and looks for nothing
in vain anywhere else; `Keeps` says so, and there is a rule for each way of making readers. So the
places that a sentence knows are places in its text, and if the text is no sentence, so is the
furthest place at which something was looked for (`isPlace_of_sentence`,
`isPlace_of_sentence_error`). Where a parenthesis is found unmatched, one stands
(`parenAt_of_checkDelimiters`).
-/

namespace Sift.Syntax

/-! ### Places -/

/-- Whether a number of bytes leads to a place between two characters of a text, or to one of its
ends. -/
def IsPlace (cs : List Char) (place : Nat) : Prop :=
  ∃ front rest, cs = front ++ rest ∧ byteCount front = place

/-- Whether a cursor stands at a place in a text. -/
def Cursor.StandsIn (cursor : Cursor) (cs : List Char) : Prop :=
  ∃ front, Spans ⟨0, cs⟩ front cursor

theorem isPlace_zero (cs : List Char) :
  IsPlace cs 0
  := ⟨[], cs, rfl, rfl⟩

namespace Cursor.StandsIn

variable {cs text : List Char} {cursor behind : Cursor}

theorem start (cs : List Char) :
  StandsIn ⟨0, cs⟩ cs
  := ⟨[], Spans.refl _⟩

theorem isPlace (h : cursor.StandsIn cs) :
  IsPlace cs cursor.offset
  := by
  obtain ⟨front, hfront⟩ := h
  exact ⟨front, cursor.rest, hfront.rest, by rw [hfront.offset, Nat.zero_add]⟩

theorem spans (h : cursor.StandsIn cs) (hspans : Spans cursor text behind) :
  behind.StandsIn cs
  := by
  obtain ⟨front, hfront⟩ := h
  exact ⟨_, hfront.trans hspans⟩

end Cursor.StandsIn

theorem furthest_note (trace : Trace) (kind : Construct) (place before : Nat) :
  (trace.note kind place before).furthest = trace.furthest
    ∨ (trace.note kind place before).furthest = place
  := by
  rw [Trace.note]
  split_ifs with _ _ heq
  · exact .inl rfl
  · exact .inl rfl
  · exact .inl rfl
  · exact .inr rfl

namespace Reader

variable {α β : Type} {cs : List Char}

/-! ### Readers that keep to places -/

/-- Whether a reader that starts at a place in a text keeps to its places: it notes nothing anywhere
else, and ends at a place in the text with something good. -/
structure Keeps (cs : List Char) (reader : Reader α) (good : α → Prop) : Prop where
  notes {cursor : Cursor} {trace : Trace} (hcursor : cursor.StandsIn cs)
    (htrace : IsPlace cs trace.furthest) : IsPlace cs (reader cursor trace).2.furthest
  ends {cursor : Cursor} {a : α} {behind : Cursor} (hcursor : cursor.StandsIn cs)
    (h : Takes reader cursor a behind) : behind.StandsIn cs ∧ good a

namespace Keeps

variable {x y : Reader α} {f : α → Reader β} {good : α → Prop} {goal : β → Prop}

theorem mono {weaker : α → Prop} (h : Keeps cs x good) (hweaker : ∀ a, good a → weaker a) :
  Keeps cs x weaker
  := by
  refine ⟨h.notes, ?_⟩
  intro cursor a behind hcursor htakes
  obtain ⟨hbehind, ha⟩ := h.ends hcursor htakes
  exact ⟨hbehind, hweaker a ha⟩

/-- What is found may be looked at together with the places where it begins and ends. -/
theorem strengthen {better : α → Prop} (h : Keeps cs x good)
    (hbetter : ∀ cursor a behind, cursor.StandsIn cs → behind.StandsIn cs →
      Takes x cursor a behind → better a) :
  Keeps cs x better
  := by
  refine ⟨h.notes, ?_⟩
  intro cursor a behind hcursor htakes
  obtain ⟨hbehind, -⟩ := h.ends hcursor htakes
  exact ⟨hbehind, hbetter cursor a behind hcursor hbehind htakes⟩

theorem pure {a : α} (h : good a) :
  Keeps cs (Pure.pure a) good
  := by
  refine ⟨fun _ htrace => htrace, ?_⟩
  intro cursor b behind hcursor htakes
  obtain ⟨rfl, rfl⟩ := htakes.pure_inv
  exact ⟨hcursor, h⟩

theorem bind (h : Keeps cs x good) (hf : ∀ a, good a → Keeps cs (f a) goal) :
  Keeps cs (x >>= f) goal
  := by
  constructor
  · intro cursor trace hcursor htrace
    have hnotes := h.notes hcursor htrace
    change IsPlace cs (andThen x f cursor trace).2.furthest
    simp only [andThen]
    split
    case h_1 a between after hx =>
      obtain ⟨hbetween, ha⟩ := h.ends hcursor ⟨trace, after, hx⟩
      rw [hx] at hnotes
      exact (hf a ha).notes hbetween hnotes
    case h_2 after hx =>
      rw [hx] at hnotes
      exact hnotes
  · intro cursor b behind hcursor htakes
    obtain ⟨a, between, hx, htakes⟩ := htakes.bind_inv
    obtain ⟨hbetween, ha⟩ := h.ends hcursor hx
    exact (hf a ha).ends hbetween htakes

/-- What is passed over may be anything. -/
theorem skip (h : Keeps cs x fun _ => True) (hf : ∀ a, Keeps cs (f a) goal) :
  Keeps cs (x >>= f) goal
  := bind h fun a _ => hf a

theorem map {g : α → β} (h : Keeps cs x fun a => goal (g a)) :
  Keeps cs (g <$> x) goal
  := bind h fun _ ha => pure ha

theorem or (hx : Keeps cs x good) (hy : Keeps cs y good) :
  Keeps cs (x.or y) good
  := by
  constructor
  · intro cursor trace hcursor htrace
    have hnotes := hx.notes hcursor htrace
    simp only [Reader.or]
    split
    case h_1 found after heq =>
      rw [heq] at hnotes
      exact hnotes
    case h_2 after heq =>
      rw [heq] at hnotes
      exact hy.notes hcursor hnotes
  · intro cursor a behind hcursor htakes
    obtain htakes | ⟨-, htakes⟩ := htakes.or_inv
    · exact hx.ends hcursor htakes
    · exact hy.ends hcursor htakes

theorem optional (h : Keeps cs x good) :
  Keeps cs (optional x) fun found => ∀ a ∈ found, good a
  := by
  apply or
  · apply map
    apply h.mono
    rintro a ha _ ⟨⟩
    exact ha
  · apply pure
    rintro _ ⟨⟩

/-- A construct that is missing is noted where it was looked for. -/
theorem construct {kind : Construct} (h : Keeps cs x good) :
  Keeps cs (construct kind x) good
  := by
  constructor
  · intro cursor trace hcursor htrace
    have hnotes := h.notes hcursor htrace
    simp only [Reader.construct]
    split
    case h_1 found after heq =>
      rw [heq] at hnotes
      exact hnotes
    case h_2 after heq =>
      rw [heq] at hnotes
      obtain hfurthest | hfurthest :=
        furthest_note after kind cursor.offset (trace.countAt cursor.offset)
      · rw [hfurthest]
        exact hnotes
      · rw [hfurthest]
        exact hcursor.isPlace
  · intro cursor a behind hcursor htakes
    exact h.ends hcursor htakes.construct_inv

theorem place :
  Keeps cs place (IsPlace cs)
  := by
  refine ⟨fun _ htrace => htrace, ?_⟩
  intro cursor offset behind hcursor htakes
  obtain ⟨rfl, rfl⟩ := htakes.place_inv
  exact ⟨hcursor, hcursor.isPlace⟩

theorem layout :
  Keeps cs layout fun _ => True
  := by
  refine ⟨fun _ htrace => htrace, ?_⟩
  intro cursor _ behind hcursor htakes
  obtain ⟨-, gap, -, hspans⟩ := htakes.layout_inv
  exact ⟨hcursor.spans hspans, trivial⟩

theorem lexeme {find : List Char → Option (Lexeme α)}
    (hfind : ∀ cs found, find cs = some found → cs = found.text ++ found.rest) :
  Keeps cs (lexeme find) fun _ => True
  := by
  constructor
  · intro cursor trace _ htrace
    simp only [Reader.lexeme]
    split
    · exact htrace
    · exact htrace
  · intro cursor a behind hcursor htakes
    obtain ⟨found, hfound, -, rfl⟩ := htakes.lexeme_inv
    exact ⟨hcursor.spans (spans_advance (hfind _ _ hfound)), trivial⟩

theorem sign (c : Char) :
  Keeps cs (sign c) fun _ => True
  := by
  apply lexeme
  intro cs found hfound
  split at hfound
  case h_1 d rest =>
    split at hfound
    case isTrue =>
      cases hfound
      rfl
    case isFalse => cases hfound
  case h_2 => cases hfound

theorem before (signs : List Char) :
  Keeps cs (before signs) fun _ => True
  := by
  refine ⟨fun _ htrace => htrace, ?_⟩
  intro cursor _ behind hcursor htakes
  obtain rfl := htakes.before_inv
  exact ⟨hcursor, trivial⟩

theorem atEnd :
  Keeps cs atEnd fun _ => True
  := by
  apply construct
  refine ⟨fun _ htrace => htrace, ?_⟩
  rintro cursor _ behind hcursor ⟨trace, after, htakes⟩
  simp only [Prod.mk.injEq] at htakes
  obtain ⟨htakes, -⟩ := htakes
  split at htakes
  case isTrue =>
    cases htakes
    exact ⟨hcursor, trivial⟩
  case isFalse => cases htakes

theorem beforeEnd :
  Keeps cs beforeEnd fun _ => True
  := by
  constructor
  · intro cursor trace hcursor htrace
    have hend : Keeps cs Reader.atEnd fun _ => True := atEnd
    have hnotes := hend.notes hcursor htrace
    simp only [Reader.beforeEnd]
    split
    case h_1 found after heq =>
      rw [heq] at hnotes
      exact hnotes
    case h_2 after heq =>
      rw [heq] at hnotes
      exact hnotes
  · intro cursor _ behind hcursor htakes
    obtain ⟨-, rfl⟩ := htakes.beforeEnd_inv
    exact ⟨hcursor, trivial⟩

/-- A reader may depend on where it starts. -/
theorem depending {reader : Cursor → Reader α} (h : ∀ cursor, Keeps cs (reader cursor) good) :
  Keeps cs (fun cursor trace => reader cursor cursor trace) good
  := ⟨(h _).notes, (h _).ends⟩

theorem operands {c : Char} (h : Keeps cs x good) (count : Nat) :
  Keeps cs (operands c x count) fun found => ∀ a ∈ found, good a
  := by
  have hdone : Keeps cs (done []) fun found : List α => ∀ a ∈ found, good a :=
    pure (List.forall_mem_nil _)
  induction count with
  | zero => exact hdone
  | succ count ih =>
    apply or _ hdone
    apply skip layout
    intro _
    apply skip (sign c)
    intro _
    apply skip layout
    intro _
    apply bind h
    intro a ha
    apply bind ih
    intro others hothers
    exact pure (List.forall_mem_cons.2 ⟨ha, hothers⟩)

theorem separated {c : Char} (h : Keeps cs x good) :
  Keeps cs (separated c x) fun found => ∀ a ∈ found, good a
  := by
  apply bind h
  intro a ha
  apply bind (depending fun cursor => operands h cursor.rest.length)
  intro others hothers
  exact pure (List.forall_mem_cons.2 ⟨ha, hothers⟩)

end Keeps

end Reader

open Reader

variable {cs : List Char}

/-! ### Tokens and literals -/

theorem keeps_readQuoted :
  Keeps cs readQuoted fun _ => True
  := by
  apply Keeps.construct
  apply Keeps.lexeme
  intro cs found hfound
  obtain ⟨quote, raw, rest, -, -, rfl, hcs⟩ := quoted_eq_some_iff.1 hfound
  simpa using hcs

theorem keeps_number :
  Keeps cs (construct .number (lexeme number)) fun _ => True
  := by
  apply Keeps.construct
  apply Keeps.lexeme
  intro cs found hfound
  exact (exists_of_number hfound).1

theorem keeps_boolean :
  Keeps cs (construct .boolean (lexeme boolean)) fun _ => True
  := by
  apply Keeps.construct
  apply Keeps.lexeme
  intro cs found hfound
  obtain ⟨b, rest, rfl, hcs, -⟩ := boolean_eq_some_iff.1 hfound
  exact hcs

theorem keeps_bare :
  Keeps cs (construct .bare (lexeme bare)) fun _ => True
  := by
  apply Keeps.construct
  apply Keeps.lexeme
  intro cs found hfound
  obtain ⟨text, rest, rfl, hcs, -⟩ := someRun_eq_some_iff.1 hfound
  exact hcs

theorem keeps_readScalar :
  Keeps cs readScalar fun _ => True
  := by
  apply Keeps.or
  · exact Keeps.or keeps_readQuoted.map keeps_number
  · exact Keeps.or keeps_boolean keeps_bare.map

theorem keeps_readItem :
  Keeps cs readItem fun _ => True
  := by
  apply Keeps.or
  · apply Keeps.skip keeps_readScalar.construct
    intro _
    apply Keeps.skip Keeps.layout
    intro _
    apply Keeps.skip (Keeps.before _)
    intro _
    exact Keeps.pure trivial
  · apply Keeps.map
    apply Keeps.lexeme
    rintro cs _ ⟨⟩
    exact List.takeWhile_append_dropWhile.symm

theorem keeps_readList :
  Keeps cs readList fun _ => True
  := by
  apply Keeps.construct
  apply Keeps.or
  · apply Keeps.skip (Keeps.sign _)
    intro _
    apply Keeps.skip Keeps.layout
    intro _
    apply Keeps.skip (Keeps.sign _)
    intro _
    exact Keeps.pure trivial
  · apply Keeps.skip (Keeps.sign _)
    intro _
    apply Keeps.skip Keeps.layout
    intro _
    apply Keeps.bind keeps_readItem.separated
    intro _ _
    apply Keeps.skip Keeps.layout
    intro _
    apply Keeps.skip (Keeps.sign _)
    intro _
    exact Keeps.pure trivial

theorem keeps_readLiteral :
  Keeps cs readLiteral fun _ => True
  := by
  have hregex : Keeps cs (construct .regex (lexeme regex)) fun _ => True := by
    apply Keeps.construct
    apply Keeps.lexeme
    intro cs found hfound
    obtain ⟨body, flags, rest, -, -, rfl, hcs⟩ := exists_of_regex hfound
    simpa [RegexLiteral.text] using hcs
  apply Keeps.construct
  apply Keeps.or hregex.map
  apply Keeps.or keeps_readQuoted.map.map
  apply Keeps.or keeps_readList.map
  apply Keeps.or keeps_number.map
  apply Keeps.or keeps_boolean.map
  exact keeps_bare.map

/-! ### Phrases -/

mutual

/-- The places at which something can be found wrong with a phrase. -/
def Phrase.places : Phrase → List Nat
  | .anyOf operands => placesOfAll operands
  | .allOf operands => placesOfAll operands
  | .not operand => operand.places
  | .empty => []
  | .group inner => inner.places
  | .comparison _ _ operatorEnd _ => [operatorEnd]
  | .name text start => [start, start + byteCount text]

/-- The places at which something can be found wrong with some phrases. -/
def placesOfAll : List Phrase → List Nat
  | [] => []
  | phrase :: rest => phrase.places ++ placesOfAll rest

end

/-- The places at which something can be found wrong with a sentence. -/
def Sentence.places : Sentence → List Nat
  | freeText _ start => [start]
  | phrase p => p.places
  | blank => []

theorem placesOfAll_eq_flatMap (phrases : List Phrase) :
  placesOfAll phrases = phrases.flatMap Phrase.places
  := by
  induction phrases with
  | nil => rfl
  | cons _ _ ih => rw [placesOfAll, ih, List.flatMap_cons]

/-- Whether all places that a phrase knows are places in a text. -/
def Phrase.LiesIn (phrase : Phrase) (cs : List Char) : Prop :=
  ∀ place ∈ phrase.places, IsPlace cs place

theorem liesIn_of_all {phrases : List Phrase} (h : ∀ phrase ∈ phrases, phrase.LiesIn cs) :
  ∀ place ∈ placesOfAll phrases, IsPlace cs place
  := by
  intro place hplace
  rw [placesOfAll_eq_flatMap, List.mem_flatMap] at hplace
  obtain ⟨phrase, hphrase, hplace⟩ := hplace
  exact h phrase hphrase place hplace

theorem keeps_readIdentifier :
  Keeps cs readIdentifier fun _ => True
  := by
  apply Keeps.construct
  apply Keeps.lexeme
  intro cs found hfound
  obtain ⟨name, rest, rfl, hcs, -⟩ := exists_of_identifier hfound
  exact hcs

theorem keeps_readComparison :
  Keeps cs readComparison (Phrase.LiesIn · cs)
  := by
  have hoperator : Keeps cs (construct .operator (lexeme operator)) fun _ => True := by
    apply Keeps.construct
    apply Keeps.lexeme
    intro cs found hfound
    obtain ⟨op, rest, rfl, hcs, -⟩ := operator_eq_some_iff.1 hfound
    exact hcs
  apply Keeps.construct
  apply Keeps.skip keeps_readIdentifier
  intro _
  apply Keeps.skip Keeps.layout
  intro _
  apply Keeps.skip hoperator
  intro _
  apply Keeps.bind Keeps.place
  intro operatorEnd hend
  apply Keeps.skip Keeps.layout
  intro _
  apply Keeps.bind keeps_readLiteral.optional
  intro _ _
  apply Keeps.pure
  exact List.forall_mem_singleton.2 hend

/-- A name ends where the reader does. -/
theorem keeps_readName :
  Keeps cs readName (Phrase.LiesIn · cs)
  := by
  have hname : Keeps cs readName fun _ => True := by
    apply Keeps.construct
    apply Keeps.bind Keeps.place
    intro _ _
    apply Keeps.skip keeps_readIdentifier
    intro _
    exact Keeps.pure trivial
  apply hname.strengthen
  intro cursor phrase behind hcursor hbehind htakes
  obtain ⟨start, _, hplace, htakes⟩ := htakes.construct_inv.bind_inv
  obtain ⟨name, _, hname, htakes⟩ := htakes.bind_inv
  obtain ⟨rfl, rfl⟩ := htakes.pure_inv
  obtain ⟨rfl, rfl⟩ := hplace.place_inv
  obtain ⟨hspans, -⟩ := spans_of_identifier hname
  rw [Phrase.LiesIn, Phrase.places, List.forall_mem_cons, List.forall_mem_singleton,
    ← hspans.offset]
  exact ⟨hcursor.isPlace, hbehind.isPlace⟩

section Operands

variable {inner : Reader Phrase}

theorem keeps_readGroup (h : Keeps cs inner (Phrase.LiesIn · cs)) :
  Keeps cs (readGroup inner) (Phrase.LiesIn · cs)
  := by
  apply Keeps.construct
  apply Keeps.skip (Keeps.sign _)
  intro _
  apply Keeps.skip Keeps.layout
  intro _
  apply Keeps.bind h.optional
  intro found hfound
  apply Keeps.skip Keeps.layout
  intro _
  apply Keeps.skip (Keeps.sign _)
  intro _
  apply Keeps.pure
  cases found with
  | none => exact List.forall_mem_nil _
  | some phrase => exact hfound phrase rfl

theorem keeps_readOperand (h : Keeps cs inner (Phrase.LiesIn · cs)) :
  Keeps cs (readOperand inner) (Phrase.LiesIn · cs)
  := by
  have hprimary : Keeps cs (readPrimary inner) (Phrase.LiesIn · cs) := by
    apply Keeps.construct
    apply Keeps.or (keeps_readGroup h)
    exact Keeps.or keeps_readComparison keeps_readName
  apply Keeps.construct
  apply Keeps.bind (Keeps.sign _).construct.optional
  intro negation _
  apply Keeps.skip Keeps.layout
  intro _
  apply Keeps.bind hprimary
  intro phrase hphrase
  apply Keeps.pure
  cases negation with
  | none => exact hphrase
  | some => exact hphrase

theorem keeps_readAnyOf (h : Keeps cs inner (Phrase.LiesIn · cs)) :
  Keeps cs (readAnyOf inner) (Phrase.LiesIn · cs)
  := by
  have hallOf : Keeps cs (readAllOf inner) (Phrase.LiesIn · cs) := by
    apply Keeps.construct
    apply Keeps.map
    apply (keeps_readOperand h).separated.mono
    exact fun _ => liesIn_of_all
  apply Keeps.construct
  apply Keeps.map
  apply hallOf.separated.mono
  exact fun _ => liesIn_of_all

end Operands

theorem keeps_readPhrase (depth : Nat) :
  Keeps cs (readPhrase depth) (Phrase.LiesIn · cs)
  := by
  induction depth with
  | zero =>
    apply keeps_readAnyOf
    refine ⟨fun _ htrace => htrace, ?_⟩
    rintro _ _ _ _ ⟨_, _, ⟨⟩⟩
  | succ depth ih => exact keeps_readAnyOf ih

/-! ### Whole texts -/

theorem keeps_readQuery :
  Keeps cs readQuery fun found => ∀ place ∈ found.places, IsPlace cs place
  := by
  have hfreeText : Keeps cs readFreeText fun found => ∀ place ∈ found.places, IsPlace cs place := by
    apply Keeps.construct
    apply Keeps.bind Keeps.place
    intro start hstart
    apply Keeps.skip keeps_readQuoted
    intro _
    apply Keeps.skip Keeps.layout
    intro _
    apply Keeps.skip Keeps.beforeEnd
    intro _
    apply Keeps.pure
    exact List.forall_mem_singleton.2 hstart
  have hphrase : Keeps cs (fun cursor trace =>
      (Sentence.phrase <$> readPhrase cursor.rest.length) cursor trace)
      fun found => ∀ place ∈ found.places, IsPlace cs place := by
    apply Keeps.depending
    intro cursor
    exact (keeps_readPhrase _).map
  apply Keeps.construct
  apply Keeps.skip Keeps.layout
  intro _
  apply Keeps.bind (Keeps.or hfreeText hphrase).optional
  intro found hfound
  apply Keeps.skip Keeps.layout
  intro _
  apply Keeps.skip Keeps.atEnd
  intro _
  apply Keeps.pure
  cases found with
  | none => exact List.forall_mem_nil _
  | some content => exact hfound content rfl

/-- The places that a sentence knows are places in its text. -/
theorem isPlace_of_sentence {found : Sentence} (h : sentence cs = .ok found) :
  ∀ place ∈ found.places, IsPlace cs place
  := by
  rw [sentence] at h
  split at h
  case h_1 content behind after hread =>
    cases h
    exact (keeps_readQuery.ends (Cursor.StandsIn.start cs) ⟨_, _, hread⟩).2
  case h_2 => cases h

/-- Where a text that is no sentence was left, there is a place in it. -/
theorem isPlace_of_sentence_error {trace : Trace} (h : sentence cs = .error trace) :
  IsPlace cs trace.furthest
  := by
  rw [sentence] at h
  split at h
  case h_1 => cases h
  case h_2 after hread =>
    cases h
    have hstart : IsPlace cs ({} : Trace).furthest := isPlace_zero cs
    have hnotes := keeps_readQuery.notes (Cursor.StandsIn.start cs) hstart
    rwa [hread] at hnotes

/-! ### Parentheses -/

/-- Whether a parenthesis stands at a place in a text. -/
def ParenAt (cs : List Char) (place : Nat) : Prop :=
  ∃ front c rest, cs = front ++ c :: rest ∧ byteCount front = place ∧ (c = '(' ∨ c = ')')

theorem ParenAt.isPlace {place : Nat} (h : ParenAt cs place) :
  IsPlace cs place
  := by
  obtain ⟨front, c, rest, hcs, hplace, -⟩ := h
  exact ⟨front, c :: rest, hcs, hplace⟩

theorem spans_cons (place : Nat) (c : Char) (rest : List Char) :
  Spans ⟨place, c :: rest⟩ [c] ⟨place + c.utf8Size, rest⟩
  := ⟨rfl, rfl⟩

theorem Cursor.StandsIn.parenAt {place : Nat} {c : Char} {rest : List Char}
    (h : StandsIn ⟨place, c :: rest⟩ cs) (hc : c = '(' ∨ c = ')') :
  ParenAt cs place
  := by
  obtain ⟨front, hfront⟩ := h
  exact ⟨front, c, rest, hfront.rest, by simpa using hfront.offset.symm, hc⟩

/-- Behind a literal there is a place in the text. -/
theorem standsIn_of_closeLiteral {quote : Char} {place behind : Nat} {text rest : List Char}
    (h : closeLiteral quote place text = some (behind, rest))
    (hplace : Cursor.StandsIn ⟨place, text⟩ cs) :
  Cursor.StandsIn ⟨behind, rest⟩ cs
  := by
  fun_induction closeLiteral quote place text with
  | case1 => cases h
  | case2 => cases h
  | case3 place d text ih =>
    apply ih h
    exact (hplace.spans (spans_cons _ _ _)).spans (spans_cons _ _ _)
  | case4 place text =>
    cases h
    exact hplace.spans (spans_cons _ _ _)
  | case5 => cases h
  | case6 place c text _ _ _ ih => exact ih h (hplace.spans (spans_cons _ _ _))

/-- Where a parenthesis is found unmatched, one stands, if the ones that wait for a partner do. -/
theorem parenAt_of_delimiterFault {opened : List Nat} {place found : Nat} {text : List Char}
    (h : delimiterFault opened place text = some (.unmatched found))
    (hplace : Cursor.StandsIn ⟨place, text⟩ cs) (hopened : ∀ other ∈ opened, ParenAt cs other) :
  ParenAt cs found
  := by
  fun_induction delimiterFault opened place text with
  | case1 opened place =>
    obtain ⟨other, hother, hfound⟩ := Option.map_eq_some_iff.1 h
    cases hfound
    exact hopened _ (List.mem_of_getLast? hother)
  | case2 opened place c text _ behind rest hclose ih =>
    exact ih h (standsIn_of_closeLiteral hclose (hplace.spans (spans_cons _ _ _))) hopened
  | case3 => cases h
  | case4 opened place text _ ih =>
    apply ih h (hplace.spans (spans_cons _ _ _))
    exact List.forall_mem_cons.2 ⟨hplace.parenAt (.inl rfl), hopened⟩
  | case5 place text =>
    cases h
    exact hplace.parenAt (.inr rfl)
  | case6 place text _ _ opened _ ih =>
    exact ih h (hplace.spans (spans_cons _ _ _)) (List.forall_mem_cons.1 hopened).2
  | case7 opened place c text _ _ _ ih =>
    exact ih h (hplace.spans (spans_cons _ _ _)) hopened

/-- Where a parenthesis is found unmatched, one stands. -/
theorem parenAt_of_checkDelimiters {place : Nat}
    (h : checkDelimiters cs = .error (.unmatched place)) :
  ParenAt cs place
  := by
  rw [checkDelimiters] at h
  split at h
  case h_1 fault hfault =>
    cases h
    exact parenAt_of_delimiterFault hfault (Cursor.StandsIn.start cs) (List.forall_mem_nil _)
  case h_2 => cases h

end Sift.Syntax
