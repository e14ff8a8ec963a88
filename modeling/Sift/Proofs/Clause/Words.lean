import Sift.Proofs.Clause.Exact
import Sift.Proofs.Pattern.Conversion

/-!
# Searches for words

The text of a search for words is read by the engine in a language of its own. `IsSearch` says
which texts of this language search for nothing but a given text: a word between stars, or a phrase
that no quote inside ends and whose escapes stand for the text. The search for a text is always
such a text (`isSearch_wordsQuery`, `Compiler.isSearch_words`), and different texts have different
searches. So whatever a tree says, its clause has no other searches than those for the texts of
its rules (`Compiler.isSearch_of_compile`).
-/

namespace Sift

open Regex

/-! ### Texts between quotes -/

/-- Whether a text stays between the quotes around it: each quote in it is behind an odd number of
backslashes, and its last backslash does not take the closing quote. -/
structure StaysQuoted (inside : List Char) : Prop where
  quote : ∀ front rest, inside = front ++ '"' :: rest → backslashesAtEnd front % 2 = 1
  ending : backslashesAtEnd inside % 2 = 0

namespace StaysQuoted

theorem nil :
  StaysQuoted []
  := by
  constructor
  · intro front rest h
    simp at h
  · rfl

theorem append {first second : List Char} (hfirst : StaysQuoted first)
    (hsecond : StaysQuoted second) :
  StaysQuoted (first ++ second)
  := by
  constructor
  · intro front rest h
    obtain ⟨behind, rfl, hbehind⟩ | ⟨behind, rfl, hbehind⟩ := List.append_eq_append_iff.mp h
    case inl =>
      rw [backslashesAtEnd_append hfirst.ending]
      apply hsecond.quote behind rest hbehind
    case inr =>
      cases behind with
      | nil =>
        -- The quote is the first character of `second`, where no backslash is before it.
        cases hsecond.quote [] rest hbehind.symm
      | cons c behind =>
        cases hbehind
        apply hfirst.quote front behind rfl
  · rw [backslashesAtEnd_append hfirst.ending, hsecond.ending]

theorem plain {c : Char} (hbackslash : c ≠ '\\') (hquote : c ≠ '"') :
  StaysQuoted [c]
  := by
  constructor
  · intro front rest h
    have hmem : '"' ∈ [c] := by simp [h]
    cases hquote (List.mem_singleton.mp hmem).symm
  · apply congrArg (· % 2) (backslashesAtEnd_concat hbackslash [])

theorem escape (c : Char) :
  StaysQuoted ['\\', c]
  := by
  constructor
  · intro front rest h
    match front with
    | [] => cases h
    | [d] =>
      cases h
      rfl
    | d :: e :: front => simp at h
  · exact (Unanchored.escape c).even

end StaysQuoted

/-! ### Escapes -/

/-- The text that a phrase stands for, in which a backslash and a character behind it are that
character. There is none if nothing is behind the last backslash. -/
def unescapePhrase? : List Char → Option (List Char)
  | [] => some []
  | ['\\'] => none
  | '\\' :: c :: rest => (unescapePhrase? rest).map (c :: ·)
  | c :: rest => (unescapePhrase? rest).map (c :: ·)

theorem unescapePhrase?_cons {c : Char} (hc : c ≠ '\\') (rest : List Char) :
  unescapePhrase? (c :: rest) = (unescapePhrase? rest).map (c :: ·)
  := by
  rw [unescapePhrase?.eq_def]
  simp [hc]

theorem escapePhrase_cons (c : Char) (cs : List Char) :
  escapePhrase (c :: cs)
    = (if c = '\\' ∨ c = '"' then ['\\', c] else [c]) ++ escapePhrase cs
  := List.flatMap_cons

/-- No quote in an escaped text ends it. -/
theorem staysQuoted_escapePhrase (cs : List Char) :
  StaysQuoted (escapePhrase cs)
  := by
  induction cs with
  | nil => exact .nil
  | cons c cs ih =>
    rw [escapePhrase_cons]
    split
    case isTrue => exact (StaysQuoted.escape c).append ih
    case isFalse h =>
      rw [not_or] at h
      exact (StaysQuoted.plain h.1 h.2).append ih

/-- An escaped text stands for the text. -/
theorem unescapePhrase?_escapePhrase (cs : List Char) :
  unescapePhrase? (escapePhrase cs) = some cs
  := by
  induction cs with
  | nil => rfl
  | cons c cs ih =>
    rw [escapePhrase_cons]
    split
    case isTrue =>
      change (unescapePhrase? (escapePhrase cs)).map (c :: ·) = some (c :: cs)
      rw [ih, Option.map_some]
    case isFalse h =>
      rw [not_or] at h
      rw [List.singleton_append, unescapePhrase?_cons h.1, ih, Option.map_some]

/-- A text in which every `sign` is replaced. -/
def replaceSign (sign : Char) (replacement cs : List Char) : List Char :=
  cs.flatMap fun c => if c = sign then replacement else [c]

/-- A text is escaped by a replacement of its backslashes and then one of its quotes. -/
theorem escapePhrase_eq_replaceSign (cs : List Char) :
  escapePhrase cs = replaceSign '"' ['\\', '"'] (replaceSign '\\' ['\\', '\\'] cs)
  := by
  rw [escapePhrase, replaceSign, replaceSign, List.flatMap_assoc]
  congr
  funext c
  by_cases hbackslash : c = '\\'
  · subst hbackslash
    rfl
  · by_cases hquote : c = '"' <;> simp [hbackslash, hquote]

/-- If the quotes come first, their own backslashes are replaced too, and the quotes are bare. -/
example : replaceSign '\\' ['\\', '\\'] (replaceSign '"' ['\\', '"'] ['"']) = ['\\', '\\', '"'] := by
  decide

/-! ### Searches for a text -/

/-- Whether a text in the language of the engine searches for a given text. -/
inductive IsSearch (text : List Char) : List Char → Prop where
  | word (hnonempty : text ≠ []) (hword : ∀ c ∈ text, Text.isAlphanumeric c = true ∨ c = '_') :
      IsSearch text ('*' :: text ++ ['*'])
  | phrase {inside : List Char} (hquoted : StaysQuoted inside)
      (htext : unescapePhrase? inside = some text) : IsSearch text ('"' :: inside ++ ['"'])

theorem isSearch_wordsQuery (cs : List Char) :
  IsSearch cs (wordsQuery cs)
  := by
  rw [wordsQuery]
  split
  case isTrue h =>
    simp only [isWord, Bool.and_eq_true, Bool.not_eq_true', List.isEmpty_eq_false_iff,
      List.all_eq_true, Bool.or_eq_true, decide_eq_true_eq] at h
    exact .word h.1 h.2
  case isFalse => exact .phrase (staysQuoted_escapePhrase cs) (unescapePhrase?_escapePhrase cs)

/-- A search is for one text only. -/
theorem IsSearch.unique {text other query : List Char} (h : IsSearch text query)
    (h' : IsSearch other query) :
  text = other
  := by
  cases h with
  | word =>
    generalize hquery : '*' :: text ++ ['*'] = query at h'
    cases h' with
    | word => simpa using hquery
    | phrase => simp at hquery
  | @phrase inside hquoted htext =>
    generalize hquery : '"' :: inside ++ ['"'] = query at h'
    cases h' with
    | word => simp at hquery
    | @phrase other_inside hquoted' htext' =>
      have hinside : inside = other_inside := by simpa using hquery
      rw [hinside, htext'] at htext
      exact (Option.some.inj htext).symm

/-- Different texts have different searches. -/
theorem wordsQuery_injective :
  wordsQuery.Injective
  := by
  intro cs ds h
  have hds := isSearch_wordsQuery ds
  rw [← h] at hds
  exact (isSearch_wordsQuery cs).unique hds

/-! ### Searches in a clause -/

/-- Whether a text is that of a search somewhere in a clause. -/
inductive Clause.Searches (query : String) : Clause → Prop where
  | here (fields : List String) : Searches query (.queryString fields query)
  | part {must mustNot should : List Clause} {clause : Clause}
      (hpart : clause ∈ must ++ mustNot ++ should) (h : Searches query clause) :
      Searches query (.bool must mustNot should)

namespace Clause

variable {query : String} {clauses : List Clause}

theorem searches_bool_iff {must mustNot should : List Clause} :
  (bool must mustNot should).Searches query
    ↔ ∃ clause ∈ must ++ mustNot ++ should, clause.Searches query
  := by
  constructor
  · rintro (_ | ⟨hpart, h⟩)
    exact ⟨_, hpart, h⟩
  · rintro ⟨clause, hpart, h⟩
    exact .part hpart h

theorem searches_notIf_iff {negated : Bool} {clause : Clause} :
  (clause.notIf negated).Searches query ↔ clause.Searches query
  := by
  cases negated with
  | false => rfl
  | true =>
    rw [notIf, if_pos rfl, Clause.not, searches_bool_iff]
    simp

theorem searches_anyOf_iff :
  (anyOf clauses).Searches query ↔ ∃ clause ∈ clauses, clause.Searches query
  := by
  match clauses with
  | [only] => simp [anyOf]
  | [] | first :: second :: rest => simp [anyOf, any, searches_bool_iff]

end Clause

open Clause

namespace Compiler

theorem searches_groupClause_iff {condition : Condition} {negated : Bool} {children : List Clause}
    {query : String} :
  (groupClause condition negated children).Searches query
    ↔ ∃ clause ∈ children, clause.Searches query
  := by
  rw [groupClause, searches_notIf_iff]
  split
  case isTrue hempty =>
    rw [List.isEmpty_iff.mp hempty]
    constructor
    · intro h
      cases condition <;> cases h
    · simp
  case isFalse => cases condition <;> simp [joined, all, any, searches_bool_iff]

theorem not_searches_oneOf (field : String) (terms : List Term) (query : String) :
  ¬(oneOf field terms).Searches query
  := by
  unfold oneOf
  split <;> rintro ⟨⟩

theorem not_searches_reconciled (field : String) (stored wanted : List String) (query : String) :
  ¬(reconciled field stored wanted).Searches query
  := by
  simp only [reconciled]
  split
  · rintro ⟨⟩
  · apply not_searches_oneOf

variable (compiler : Compiler) {field : Field} {query : String}

theorem not_searches_presence (target : String) :
  ¬(compiler.presence field target).Searches query
  := by
  rw [presence]
  split
  case isTrue =>
    have hfield : ¬(hasField target).Searches query := by rintro ⟨⟩
    have hterm : ¬(term (compiler.keyword target) (.string "")).Searches query := by rintro ⟨⟩
    simp [all, Clause.not, searches_bool_iff, hfield, hterm]
  case isFalse => rintro ⟨⟩

theorem not_searches_fanOut {clause : String → Clause}
    (h : ∀ target, ¬(clause target).Searches query) :
  ¬(compiler.fanOut field clause).Searches query
  := by
  rw [fanOut, searches_anyOf_iff]
  rintro ⟨_, hpart, hquery⟩
  obtain ⟨target, -, rfl⟩ := List.mem_map.mp hpart
  exact h target hquery

theorem not_searches_matching {pattern : String} {ignoreCase : Bool} {clause : Clause}
    (h : compiler.matching field pattern ignoreCase = .ok clause) :
  ¬clause.Searches query
  := by
  rw [matching] at h
  split at h
  case h_1 =>
    cases h
    apply compiler.not_searches_fanOut
    rintro target ⟨⟩
  case h_2 => cases h

theorem not_searches_directExact {values : List Value} {clause : Clause}
    (h : compiler.directExact field values = .ok clause) :
  ¬clause.Searches query
  := by
  by_cases hstring : field.type = .string
  case pos =>
    rw [compiler.directExact_inv hstring h, ← fanOut]
    apply compiler.not_searches_fanOut
    exact fun target => not_searches_reconciled _ _ _ _
  case neg =>
    rw [directExact, if_neg hstring] at h
    cases h
    apply not_searches_oneOf

/-! ### Searches of a tree -/

/-- The text that is searched for, in lower case if it is to be. -/
def searched (s : String) : String :=
  if compiler.config.lowercaseQueryString then Text.lowercase s else s

/-- A search for words is one for the text and for nothing else. -/
theorem isSearch_words (field : Field) (s : String) :
  ∃ query, compiler.words field s = .queryString (compiler.targets field) query
    ∧ IsSearch (compiler.searched s).toList query.toList
  := by
  refine ⟨_, rfl, ?_⟩
  rw [String.toList_ofList]
  apply isSearch_wordsQuery

theorem isSearch_of_directPositive {x : Rule} {clause : Clause}
    (h : compiler.directPositive field x = .ok clause) (hquery : clause.Searches query) :
  ∃ s, x.operator.positive = .contains ∧ x.value = some (.string s)
    ∧ IsSearch (compiler.searched s).toList query.toList
  := by
  rw [directPositive] at h
  split at h
  case h_1 =>
    cases h
    cases compiler.not_searches_fanOut compiler.not_searches_presence hquery
  case h_2 | h_3 | h_5 => cases compiler.not_searches_matching h hquery
  case h_4 s hcontains hvalue =>
    cases h
    obtain ⟨query', hwords, hsearch⟩ := compiler.isSearch_words field s
    rw [hwords] at hquery
    cases hquery
    exact ⟨s, hcontains, hvalue, hsearch⟩
  case h_6 | h_7 => cases compiler.not_searches_directExact h hquery
  case h_8 => cases h

theorem isSearch_of_directRule {x : Rule} {clause : Clause} (h : compiler.directRule x = .ok clause)
    (hquery : clause.Searches query) :
  ∃ s, x.operator.positive = .contains ∧ x.value = some (.string s)
    ∧ IsSearch (compiler.searched s).toList query.toList
  := by
  cases hbound : Bound.ofOperator? x.operator with
  | some bound =>
    simp only [directRule, hbound] at h
    split at h
    case h_1 => cases h
    case h_2 =>
      split at h
      case h_1 =>
        cases h
        cases hquery
      case h_2 => cases h
  | none =>
    obtain ⟨found, positive, -, hpositive, rfl⟩ := compiler.directRule_inv hbound h
    exact compiler.isSearch_of_directPositive hpositive (searches_notIf_iff.mp hquery)

theorem isSearch_of_direct {q : Query} {clause : Clause} (h : compiler.direct q = .ok clause)
    (hquery : clause.Searches query) :
  ∃ x origin s, .rule x origin ∈ q.nodes ∧ x.operator.positive = .contains
    ∧ x.value = some (.string s) ∧ IsSearch (compiler.searched s).toList query.toList
  := by
  induction q generalizing clause with
  | rule x origin =>
    obtain ⟨s, hx⟩ := compiler.isSearch_of_directRule h hquery
    exact ⟨x, origin, s, Query.mem_nodes_self _, hx⟩
  | group condition negated children origin ih =>
    rw [direct, directAll_eq_mapM] at h
    obtain ⟨clauses, hclauses, h⟩ := bind_eq_ok_iff.mp h
    cases h
    obtain ⟨part, hpart, hquery⟩ := searches_groupClause_iff.mp hquery
    have hparts : List.Forall₂ (fun part child => compiler.direct child = .ok part) clauses
        children := (forall₂_of_mapM_eq_ok hclauses).flip
    obtain ⟨child, hchild, hdirect⟩ := exists_of_forall₂ hparts hpart
    obtain ⟨x, origin', s, hx, hs⟩ := ih child hchild hdirect hquery
    exact ⟨x, origin', s, Query.rule_mem_nodes_group.mpr ⟨child, hchild, hx⟩, hs⟩
  | reference ref => cases h

/-- Each search in the clause of a tree is one for the text of a rule of the tree, and for nothing
else. -/
theorem isSearch_of_compile {q : Query} {clause : Clause} (h : (compiler.compile q).1 = .ok clause)
    (hquery : clause.Searches query) :
  ∃ x origin s, .rule x origin ∈ q.nodes ∧ x.operator.positive = .contains
    ∧ x.value = some (.string s) ∧ IsSearch (compiler.searched s).toList query.toList
  := by
  obtain ⟨-, -, hdirect⟩ := compiler.compile_inv h
  exact compiler.isSearch_of_direct hdirect hquery

end Compiler

end Sift
