import Sift.Proofs.Syntax.Chain
import Sift.Proofs.Syntax.Delimiter

/-!
# Reading printed trees

`Query.Legible` says which trees can be written down against a schema in a style, and
`Query.reread` which tree their text means: groups in groups of the same kind are spliced, names
of expansions are mentions, and zero has lost its sign. `parse_print` is the result that the text
of a legible tree is read as that tree. `Query.Rereads` relates trees to what their texts mean,
infinite numbers included, and `Rereads.parse_print` is the result for it.
-/

namespace Sift

/-- A mention as it is written. -/
def Reference.mention (ref : Reference) : Query :=
  .reference { name := ref.name, negated := ref.negated }

namespace Query

/-! ### Trees that can be written down -/

/-- Whether a tree can be written down against a schema. -/
inductive Legible (schema : Schema) (style : Style) : Query → Prop where
  | shown {q : Query} {ref : Reference} (hshown : q.shownName style = some ref)
    (href : ref.Legible schema) : Legible schema style q
  | rule {x : Rule} {origin : Origin} (hshown : (Query.rule x origin).shownName style = none)
    (hx : x.Legible schema) : Legible schema style (rule x origin)
  | group {condition : Condition} {negated : Bool} {children : List Query} {origin : Origin}
    (hshown : (Query.group condition negated children origin).shownName style = none)
    (hchildren : ∀ q ∈ children, Legible schema style q) :
    Legible schema style (group condition negated children origin)
  | reference {ref : Reference} (href : ref.Legible schema) : Legible schema style (reference ref)

mutual

/-- The tree that the text of a tree means. -/
def reread (style : Style) : Query → Query
  | rule x origin =>
    match (rule x origin).shownName style with
    | some ref => ref.mention
    | none => ofRule { x with value := x.value.map Value.unsignZeros }
  | reference ref => ref.mention
  | group condition negated children origin =>
    match (group condition negated children origin).shownName style with
    | some ref => ref.mention
    | none =>
      match children with
      | [] => group .and negated [] {}
      | _ :: _ =>
        let inner := chain condition (rereadAll style children)
        if negated then inner.negate else inner

/-- The trees that the texts of some trees mean. -/
def rereadAll (style : Style) : List Query → List Query
  | [] => []
  | q :: rest => q.reread style :: rereadAll style rest

end

@[simp]
theorem rereadAll_eq_map (style : Style) (children : List Query) :
  rereadAll style children = children.map (reread style)
  := by
  induction children with
  | nil => rfl
  | cons _ _ ih => rw [rereadAll, ih, List.map_cons]

section Equations

variable {style : Style} {condition : Condition} {negated : Bool} {children : List Query}
  {origin : Origin}

theorem chars_of_shown {q : Query} {ref : Reference} (h : q.shownName style = some ref)
    (parent : Option Condition) :
  q.chars style parent = ref.chars
  := by
  cases q with
  | rule => rw [chars, h]
  | group =>
    rw [chars.eq_def]
    simp only [h]
  | reference =>
    cases style <;> cases h
    rfl

theorem reread_of_shown {q : Query} {ref : Reference} (h : q.shownName style = some ref) :
  q.reread style = ref.mention
  := by
  cases q with
  | rule => rw [reread, h]
  | group =>
    rw [reread.eq_def]
    simp only [h]
  | reference =>
    cases style <;> cases h
    rfl

theorem chars_group_nil (h : (group condition negated [] origin).shownName style = none)
    (parent : Option Condition) :
  (group condition negated [] origin).chars style parent = emptyGroup parent negated
  := by
  rw [chars.eq_def]
  simp only [h]

theorem reread_group_nil (h : (group condition negated [] origin).shownName style = none) :
  (group condition negated [] origin).reread style = group .and negated [] {}
  := by
  rw [reread.eq_def]
  simp only [h]

theorem chars_group (h : (group condition negated children origin).shownName style = none)
    (hne : children ≠ []) (parent : Option Condition) :
  (group condition negated children origin).chars style parent
    = wrap parent condition negated
      ((separator condition).intercalate (children.map (chars style (some condition))))
  := by
  match children, hne with
  | _ :: _, _ =>
    rw [chars.eq_def]
    simp only [h, charsOfAll_eq_map]

theorem reread_group (h : (group condition negated children origin).shownName style = none)
    (hne : children ≠ []) :
  (group condition negated children origin).reread style
    = if negated then (chain condition (children.map (reread style))).negate
      else chain condition (children.map (reread style))
  := by
  match children, hne with
  | _ :: _, _ =>
    rw [reread.eq_def]
    simp only [h, rereadAll_eq_map]

end Equations

end Query

namespace Query

/-! ### What a text means -/

/-- Whether the text of a tree means another tree: rules are read as rules, the names that are shown
as mentions, and groups as the chains of their children. Unlike `reread` it is about infinite
numbers, too. -/
inductive Rereads (schema : Schema) (style : Style) : Query → Query → Prop where
  | shown {q : Query} {ref : Reference} (hshown : q.shownName style = some ref)
    (href : ref.Legible schema) : Rereads schema style q ref.mention
  | rule {x : Rule} {origin : Origin} (hshown : (Query.rule x origin).shownName style = none)
    (hx : x.Proper schema) :
    Rereads schema style (rule x origin) (ofRule { x with value := x.value.map Value.reread })
  | empty {condition : Condition} {negated : Bool} {origin : Origin}
    (hshown : (Query.group condition negated [] origin).shownName style = none) :
    Rereads schema style (group condition negated [] origin) (group .and negated [] {})
  | group {condition : Condition} {negated : Bool} {children : List Query} {origin : Origin}
    {read : Query → Query}
    (hshown : (Query.group condition negated children origin).shownName style = none)
    (hne : children ≠ []) (hchildren : ∀ q ∈ children, Rereads schema style q (read q)) :
    Rereads schema style (group condition negated children origin)
      (if negated then (chain condition (children.map read)).negate
        else chain condition (children.map read))
  | reference {ref : Reference} (href : ref.Legible schema) :
    Rereads schema style (reference ref) ref.mention

/-- The text of a legible tree means the tree that is read again. -/
theorem Legible.rereads {schema : Schema} {style : Style} {q : Query}
    (hq : q.Legible schema style) :
  Rereads schema style q (q.reread style)
  := by
  induction hq with
  | shown hshown href =>
    rw [reread_of_shown hshown]
    exact .shown hshown href
  | @rule x origin hshown hx =>
    have hvalue : x.value.map Value.unsignZeros = x.value.map Value.reread :=
      Option.map_congr fun v hv => (hx.value v hv).reread_eq.symm
    rw [Query.reread, hshown, hvalue]
    exact .rule hshown hx.proper
  | @group condition negated children origin hshown _ ih =>
    by_cases hne : children = []
    · subst hne
      rw [reread_group_nil hshown]
      exact .empty hshown
    · rw [reread_group hshown hne]
      exact .group hshown hne ih
  | reference href =>
    rw [Query.reread]
    exact .reference href

end Query

namespace Syntax

open Reader

/-! ### Nested phrases -/

/-- Reads what stands in the parentheses of a phrase in which groups are nested less than `depth`
times. -/
def nested : Nat → Reader Phrase
  | 0 => fun _ trace => (none, trace)
  | depth + 1 => readPhrase depth

theorem readPhrase_eq (depth : Nat) :
  readPhrase depth = readAnyOf (nested depth)
  := by
  cases depth <;> rfl

theorem refuses_nested (depth : Nat) (rest : List Char) :
  Refuses (nested depth) (')' :: rest)
  := by
  cases depth with
  | zero =>
    intro offset trace
    exact ⟨trace, rfl⟩
  | succ depth =>
    have hhead : ∀ c ∈ (')' :: rest).head?, isOperandStart c = false := by
      rintro _ ⟨⟩
      rfl
    have hoperand : Refuses (readOperand (nested depth)) (')' :: rest) :=
      refuses_readOperand hhead rfl
    rw [nested, readPhrase_eq]
    apply Refuses.construct
    apply Refuses.map
    apply Refuses.bind
    apply Refuses.construct
    apply Refuses.map
    exact Refuses.bind hoperand

/-! ### Trees -/

variable {schema : Schema} {style : Style}

/-- A printed mention is read as it. -/
theorem readAs_mention {inner : Reader Phrase} {ref : Reference} (href : ref.Legible schema) :
  ReadAs schema (readOperand inner) [.and, .or] ref.chars ref.mention
  := by
  have hname : ReadAs schema (readPrimary inner) [.and, .or] ref.name.toList
      (.reference { name := ref.name }) := readAs_name href
  rw [Reference.chars, Reference.mention]
  cases ref.negated with
  | false =>
    have hidentifier := isIdentifier_of_isReferenceName href.isReferenceName
    apply hname.operand
    simpa using identifier_head_ne hidentifier (by rfl : isIdentifierStart '!' = false) []
  | true => exact hname.negate

/-- Operands in parentheses are one operand. -/
theorem readAs_parens {condition : Condition} {text : List Char} {q : Query} {depth : Nat}
    (h : ∀ inner, text.length ≤ inner → IsChain schema (nested inner) condition text q)
    (hdepth : text.length < depth) :
  ReadAs schema (readPrimary (nested depth)) [.and, .or] ('(' :: text ++ [')']) q
  := by
  obtain ⟨inner, rfl⟩ := Nat.exists_eq_add_one.2 (Nat.zero_lt_of_lt hdepth)
  have hread := (h inner (Nat.le_of_lt_succ hdepth)).readAnyOf
  apply readAs_group
  rw [nested, readPhrase_eq]
  exact hread

/-- A group of the same kind is spliced into the group around it, another one is an operand of
it. -/
theorem isChain_wrap {own : Condition} {text : List Char} {q : Query} {depth : Nat}
    (h : ∀ inner, text.length ≤ inner → IsChain schema (nested inner) own text q)
    (condition : Condition) (negated : Bool)
    (hdepth : (Query.wrap (some condition) own negated text).length ≤ depth) :
  IsChain schema (nested depth) condition (Query.wrap (some condition) own negated text)
    (if negated then q.negate else q)
  := by
  cases negated with
  | true =>
    have hlength : text.length < depth := by
      simp only [Query.wrap, if_true, List.length_cons, List.length_append] at hdepth
      omega
    exact .of_operand (readAs_parens h hlength).negate condition
  | false =>
    by_cases hsame : condition = own
    · subst hsame
      have hwrap : Query.wrap (some condition) condition false text = text := by
        simp [Query.wrap]
      rw [hwrap] at hdepth ⊢
      exact h depth hdepth
    · have hwrap : Query.wrap (some condition) own false text = '(' :: text ++ [')'] := by
        simp [Query.wrap, hsame]
      have hlength : text.length < depth := by
        simp only [hwrap, List.length_cons, List.length_append] at hdepth
        omega
      rw [hwrap]
      exact .of_operand ((readAs_parens h hlength).operand (by simp)) condition

/-- Children that are printed as operands are operands of one chain. -/
theorem isChain_children {condition : Condition} {children : List Query} {depth : Nat}
    {read : Query → Query} (hne : children ≠ [])
    (h : ∀ q ∈ children, (q.chars style (some condition)).length ≤ depth →
      IsChain schema (nested depth) condition (q.chars style (some condition)) (read q))
    (hdepth : ((Query.separator condition).intercalate
      (children.map (Query.chars style (some condition)))).length ≤ depth) :
  IsChain schema (nested depth) condition
    ((Query.separator condition).intercalate (children.map (Query.chars style (some condition))))
    (Query.chain condition (children.map read))
  := by
  obtain ⟨items, hitems⟩ : ∃ items, items = children.map fun q =>
    (q.chars style (some condition), read q) := ⟨_, rfl⟩
  have hchains : ∀ item ∈ items, IsChain schema (nested depth) condition item.1 item.2 := by
    rw [hitems, List.forall_mem_map]
    intro q hq
    apply h q hq
    exact Nat.le_trans (length_le_intercalate (List.mem_map_of_mem hq)) hdepth
  have hjoin := IsChain.join (by simpa [hitems] using hne) hchains
  rw [hitems, List.map_map, List.map_map] at hjoin
  exact hjoin

/-- A tree is printed in a group as operands with the sign of the group between them. -/
theorem isChain_chars {q r : Query} (hq : q.Rereads schema style r) (condition : Condition)
    {depth : Nat} (hdepth : (q.chars style (some condition)).length ≤ depth) :
  IsChain schema (nested depth) condition (q.chars style (some condition)) r
  := by
  induction hq generalizing condition depth with
  | shown hshown href =>
    rw [Query.chars_of_shown hshown]
    exact .of_operand (readAs_mention href) condition
  | rule hshown hx =>
    rw [Query.chars, hshown]
    apply IsChain.of_operand
    apply (readAs_rule (ruleReadsAs hx)).operand
    rw [Rule.chars_eq]
    exact identifier_head_ne hx.isIdentifier rfl _
  | @empty _ negated _ hshown =>
    have hempty : ReadAs schema (readPrimary (nested depth)) [.and, .or] ['(', ')']
        .everything := readAs_empty (refuses_nested depth)
    rw [Query.chars_group_nil hshown]
    apply IsChain.of_operand
    cases negated with
    | false => exact hempty.operand (by decide)
    | true => exact hempty.negate
  | @group own negated children origin read hshown hne _ ih =>
    rw [Query.chars_group hshown hne] at hdepth ⊢
    apply isChain_wrap _ condition negated hdepth
    intro inner hinner
    apply isChain_children hne _ hinner
    intro q hq
    exact ih q hq own
  | reference href =>
    rw [Query.chars]
    exact .of_operand (readAs_mention href) condition

/-! ### Delimiters -/

theorem transparent_reference {ref : Reference} (href : ref.Legible schema) :
  Transparent ref.chars
  := by
  have hname := transparent_identifier (isIdentifier_of_isReferenceName href.isReferenceName)
  rw [Reference.chars]
  split
  · have hsign : Transparent ['!'] := Transparent.of_isPlain (List.all_eq_true.1 rfl)
    exact hsign.append hname
  · exact hname

theorem transparent_rule {x : Rule} (hx : x.Proper schema) :
  Transparent x.chars
  := by
  have hspace : Transparent [' '] := Transparent.of_isPlain (List.all_eq_true.1 rfl)
  have hoperator : Transparent x.operator.token.toList := by
    apply Transparent.of_isPlain
    cases x.operator <;> exact List.all_eq_true.1 rfl
  have hfield := transparent_identifier hx.isIdentifier
  have hvalue : Transparent (x.value.elim [] (' ' :: ·.chars)) := by
    cases hv : x.value with
    | none => exact Transparent.nil
    | some v => exact hspace.append (transparent_chars (hx.value v hv))
  rw [Rule.chars_eq]
  exact hfield.append (hspace.append (hoperator.append hvalue))

/-- The text of a tree closes what it opens. -/
theorem transparent_query {q r : Query} (hq : q.Rereads schema style r)
    (parent : Option Condition) :
  Transparent (q.chars style parent)
  := by
  have hsign : Transparent ['!'] := Transparent.of_isPlain (List.all_eq_true.1 rfl)
  induction hq generalizing parent with
  | shown hshown href =>
    rw [Query.chars_of_shown hshown]
    exact transparent_reference href
  | rule hshown hx =>
    rw [Query.chars, hshown]
    exact transparent_rule hx
  | empty hshown =>
    rw [Query.chars_group_nil hshown, Query.emptyGroup]
    split
    · exact hsign.append Transparent.nil.parens
    · split
      · exact Transparent.nil
      · exact Transparent.nil.parens
  | @group condition negated children origin read hshown hne _ ih =>
    have hinner : Transparent ((Query.separator condition).intercalate
        (children.map (Query.chars style (some condition)))) := by
      apply Transparent.intercalate
      · apply Transparent.of_isPlain
        cases condition <;> exact List.all_eq_true.1 rfl
      · simp only [List.mem_map]
        rintro _ ⟨q, hq, rfl⟩
        exact ih q hq (some condition)
    rw [Query.chars_group hshown hne, Query.wrap]
    split
    · exact hsign.append hinner.parens
    · split
      · exact hinner.parens
      · exact hinner
  | reference href => exact transparent_reference href

/-! ### Whole texts -/

/-- A text that begins with an operand is no lone quoted string. -/
theorem refuses_readFreeText {text : List Char} (h : text.head?.any isOperandStart = true) :
  Refuses readFreeText text
  := by
  have hplace : Reads place text fun _ behind => behind = text := Reads.place fun _ => rfl
  apply Refuses.construct
  apply Refuses.bind_of_reads hplace
  intro _ behind hbehind
  rw [hbehind]
  apply Refuses.bind
  apply refuses_readQuoted
  intro c hc
  rw [hc, Option.any_some] at h
  constructor <;> rintro rfl <;> cases h

/-- A text that is read as a tree is read to its end. -/
theorem reads_readQuery {text : List Char} {q : Query}
    (h : ReadAs schema (readPhrase text.length) [] text q) :
  Reads readQuery text fun found _ => ∃ phrase, found = .phrase phrase ∧ phrase.Denotes schema q
  := by
  have hread := h.reads [] (.inl rfl)
  have hskip := afterLayout_operand h.head []
  rw [List.append_nil] at hread hskip
  have hphrase : Reads (Sentence.phrase <$> readPhrase text.length) text fun found behind =>
      (∃ phrase, found = .phrase phrase ∧ phrase.Denotes schema q) ∧ afterLayout behind = [] := by
    apply Reads.map
    apply hread.mono
    rintro phrase behind ⟨hphrase, hbehind⟩
    exact ⟨⟨phrase, rfl, hphrase⟩, hbehind⟩
  have hfound : Reads (optional (readFreeText.or fun cursor trace =>
      (Sentence.phrase <$> readPhrase cursor.rest.length) cursor trace)) text fun found behind =>
        (∃ phrase, found = some (.phrase phrase) ∧ phrase.Denotes schema q)
          ∧ afterLayout behind = [] := by
    apply Reads.optional_some
    apply Reads.or_right (refuses_readFreeText h.head)
    intro offset trace
    obtain ⟨_, cursor, after, hread, ⟨phrase, rfl, hdenotes⟩, hbehind⟩ := hphrase offset trace
    exact ⟨_, cursor, after, hread, ⟨phrase, rfl, hdenotes⟩, hbehind⟩
  have hend : Reads atEnd [] fun _ _ => True := Reads.atEnd trivial
  apply Reads.construct
  apply Reads.layout_bind
  rw [hskip]
  apply Reads.bind hfound
  rintro _ behind ⟨⟨phrase, rfl, hdenotes⟩, hbehind⟩
  apply Reads.layout_bind
  rw [hbehind]
  apply Reads.bind hend
  intro _ _ _
  exact Reads.pure ⟨phrase, rfl, hdenotes⟩

/-- A text that is read as a tree is a sentence that means it. -/
theorem exists_sentence_eq {text : List Char} {q : Query}
    (h : ReadAs schema (readPhrase text.length) [] text q) :
  ∃ phrase, sentence text = .ok (.phrase phrase) ∧ phrase.Denotes schema q
  := by
  obtain ⟨_, cursor, after, hread, phrase, rfl, hdenotes⟩ := reads_readQuery h 0 {}
  use phrase
  rw [sentence, hread]
  exact ⟨rfl, hdenotes⟩

theorem toNat_of_isAlpha {c : Char} (h : c.isAlpha = true) :
  65 ≤ c.toNat ∧ c.toNat ≤ 122
  := by
  change (decide ('A'.val ≤ c.val ∧ c.val ≤ 'Z'.val)
    || decide ('a'.val ≤ c.val) && decide (c.val ≤ 'z'.val)) = true at h
  simp only [Bool.or_eq_true, Bool.and_eq_true, decide_eq_true_eq, UInt32.le_iff_toNat_le] at h
  change (65 ≤ c.toNat ∧ c.toNat ≤ 90) ∨ (97 ≤ c.toNat ∧ c.toNat ≤ 122) at h
  omega

theorem not_isBlank_of_isOperandStart {c : Char} (h : isOperandStart c = true) :
  Text.isBlank c = false
  := by
  simp only [isOperandStart, isIdentifierStart, Bool.or_eq_true, decide_eq_true_eq] at h
  obtain (rfl | rfl) | hc | rfl := h
  · rfl
  · rfl
  · by_contra hblank
    have hblank : Text.isBlank c = true := by simpa using hblank
    have hbounds := toNat_of_isAlpha hc
    rw [Text.isBlank, Text.Ranges.has_iff] at hblank
    obtain ⟨range, hrange, hlow, hhigh⟩ := hblank
    simp only [Text.blanks, List.mem_cons, List.not_mem_nil, or_false] at hrange
    obtain rfl | rfl | rfl | rfl | rfl | rfl | rfl | rfl | rfl | rfl := hrange <;> omega
  · rfl

theorem trim_ne_nil {text : List Char} (h : text.head?.any isOperandStart = true) :
  (Text.trim text).isEmpty = false
  := by
  cases text with
  | nil => cases h
  | cons c text =>
    have hc : Text.isBlank c = false := not_isBlank_of_isOperandStart (by simpa using h)
    rw [List.isEmpty_eq_false_iff, Text.trim, List.dropWhile_cons_of_neg (by simp [hc])]
    intro hnil
    rw [List.reverse_eq_nil_iff, List.dropWhile_eq_nil_iff] at hnil
    have := hnil c (by simp)
    rw [hc] at this
    cases this

/-- A text that is read as a tree and whose delimiters are in order is parsed to the tree. -/
theorem parseChars_eq_ok {text : List Char} {q : Query}
    (h : ReadAs schema (readPhrase text.length) [] text q) (htext : Transparent text) :
  Query.parseChars schema text = .ok q
  := by
  obtain ⟨phrase, hsentence, hdenotes⟩ := exists_sentence_eq h
  rw [Query.parseChars, trim_ne_nil h.head, if_neg Bool.false_ne_true, htext.checkDelimiters]
  simp only [Query.parseDelimited, hsentence]
  exact hdenotes _

end Syntax

namespace Query

/-- At the root a tree is printed as it is in some group, but for the empty conjunction. -/
theorem Rereads.chars_root {schema : Schema} {style : Style} {q r : Query}
    (hq : q.Rereads schema style r) :
  (q.chars style none = [] ∧ r = everything)
    ∨ ∃ condition, q.chars style none = q.chars style (some condition)
  := by
  cases hq with
  | shown hshown href =>
    right
    use .and
    rw [chars_of_shown hshown, chars_of_shown hshown]
  | rule hshown hx =>
    right
    use .and
    rw [chars, chars]
  | @empty condition negated origin hshown =>
    rw [chars_group_nil hshown]
    cases negated with
    | false => exact .inl ⟨rfl, rfl⟩
    | true =>
      right
      use .and
      rw [chars_group_nil hshown]
      rfl
  | @group condition negated children origin read hshown hne =>
    right
    use condition
    rw [chars_group hshown hne, chars_group hshown hne]
    simp [wrap]
  | reference href =>
    right
    use .and
    rw [chars, chars]

/-- The text of a tree is read as the tree that it means. -/
theorem Rereads.parse_print {schema : Schema} {style : Style} {q r : Query}
    (hq : q.Rereads schema style r) :
  parse schema (q.print style) = .ok r
  := by
  rw [parse, print, String.toList_ofList]
  obtain ⟨htext, htree⟩ | ⟨condition, htext⟩ := hq.chars_root
  · rw [htext, htree]
    rfl
  · have hread := (Syntax.isChain_chars hq condition (Nat.le_refl _)).readAnyOf
    rw [← Syntax.readPhrase_eq, ← htext] at hread
    exact Syntax.parseChars_eq_ok hread (Syntax.transparent_query hq none)

/-- The text of a legible tree is read as the tree that is read again. -/
theorem parse_print {schema : Schema} {style : Style} {q : Query} (hq : q.Legible schema style) :
  parse schema (q.print style) = .ok (q.reread style)
  := hq.rereads.parse_print

end Query

end Sift
