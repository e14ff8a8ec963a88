import Sift.Number.Decimal
import Sift.Pattern.Engine
import Sift.Proofs.Pattern.Language

/-!
# The dialect of the engine

A pattern of the engine matches whole terms. `Dialect.read?` reads it as an `Expr`, whose
`language` are the terms. A backslash makes any character stand for itself, there are no anchors,
brackets hold characters and ranges, or all others behind a circumflex, and the operators that are
peculiar to the engine are not read.

The reader keeps the groups that are open as a stack of `Level`s. What it makes of the text of a
whole part is told by `Reads`, so that texts can be read part by part. `IsPart`, `AreParts` and
`AreAlternatives` say which language the text of a part, of parts in a row and of alternatives has,
and texts are put together by the rules for these.
-/

namespace Sift.Dialect

open Pattern

/-! ### Expressions -/

/-- The characters in some ranges, or all others. -/
structure Class where
  negated : Bool := false
  ranges : List (Char × Char)
deriving DecidableEq

/-- Whether a character is in one of some ranges. -/
def inRanges (ranges : List (Char × Char)) (c : Char) : Bool :=
  ranges.any fun range => range.1 ≤ c && c ≤ range.2

/-- Whether a character is in a class. -/
def Class.has (cls : Class) (c : Char) : Bool :=
  cls.negated != inRanges cls.ranges c

theorem Class.has_iff {negated : Bool} {ranges : List (Char × Char)} {c : Char} :
  (Class.mk negated ranges).has c = true ↔ (inRanges ranges c = true ↔ negated = false)
  := by
  rw [has]
  cases negated <;> cases inRanges ranges c <;> simp

/-- The class of all characters. -/
def Class.any : Class where
  negated := true
  ranges := []

/-- The class of one character. -/
def Class.char (c : Char) : Class where
  ranges := [(c, c)]

/-- An expression of the engine. -/
inductive Expr where
  | empty
  | one (cls : Class)
  | sequence (first second : Expr)
  | either (first second : Expr)
  | repetition (low : Nat) (high : Option Nat) (inner : Expr)
deriving DecidableEq

/-- The terms that an expression matches. -/
def Expr.language : Expr → Language Char
  | empty => 1
  | one cls => single fun c => cls.has c = true
  | sequence first second => first.language * second.language
  | either first second => first.language + second.language
  | repetition low high inner => repeated low high inner.language

/-! ### Levels -/

/-- What has been read of a group: the alternatives before the last bar and the parts behind it,
the last ones first. -/
structure Level where
  done : List Expr := []
  parts : List Expr := []

namespace Level

/-- The expression that has been read. -/
def expr (level : Level) : Expr :=
  level.done.foldl (fun rest first => .either first rest)
    (level.parts.foldl (fun rest first => .sequence first rest) .empty)

/-- One more part. -/
def push (level : Level) (part : Expr) : Level :=
  { level with parts := part :: level.parts }

/-- The beginning of the next alternative. -/
def bar (level : Level) : Level where
  done := (level.parts.foldl (fun rest first => .sequence first rest) .empty) :: level.done

/-- The last part repeated, if there is one. -/
def repeatLast? (low : Nat) (high : Option Nat) (level : Level) : Option Level :=
  match level.parts with
  | [] => none
  | part :: parts => some { level with parts := .repetition low high part :: parts }

end Level

/-! ### Brackets and counts -/

/-- A character in brackets, and whether a backslash stands before it. -/
abbrev Member : Type := Char × Bool

/-- The ranges that the members of brackets make. -/
def rangesOf : List Member → List (Char × Char)
  | first :: dash :: last :: rest =>
    if dash = ('-', false) then (first.1, last.1) :: rangesOf rest
    else (first.1, first.1) :: rangesOf (dash :: last :: rest)
  | first :: rest => (first.1, first.1) :: rangesOf rest
  | [] => []

/-- The class that the members of brackets make, of which there is at least one. -/
def classOf? (members : List Member) : Option Class :=
  let negated : Bool := members.head? = some ('^', false)
  let rest := if negated then members.drop 1 else members
  if rest.isEmpty then none else some { negated, ranges := rangesOf rest }

/-- The number that a text of digits writes. -/
def number? (cs : List Char) : Option Nat :=
  if !cs.isEmpty && cs.all Char.isDigit then some (Number.digitsValue cs) else none

/-- The bounds that the text between braces sets. -/
def boundsOf? (cs : List Char) : Option (Nat × Option Nat) :=
  match cs.span (· ≠ ',') with
  | (low, []) => (number? low).map fun n => (n, some n)
  | (low, [_]) => (number? low).map fun n => (n, none)
  | (low, _ :: high) => do return (← number? low, some (← number? high))

/-! ### Reading -/

/-- What the next character belongs to; what is in brackets or braces is kept, the last one
first. -/
inductive Mode where
  | outside
  | escape
  | brackets (members : List Member)
  | bracketsEscape (members : List Member)
  | braces (seen : List Char)

/-- The bounds that a repetition sign stands for. -/
def signBounds? (c : Char) : Option (Nat × Option Nat) :=
  if c = '*' then some (0, none)
  else if c = '+' then some (1, none)
  else if c = '?' then some (0, some 1)
  else none

/-- The class of a character outside brackets, unless it is an operator. -/
def bareClass? (c : Char) : Option Class :=
  if c = '.' then some .any
  else if reserved.contains c then none
  else some (.char c)

/-- The expression that a text goes on with, inside the groups `outer`. -/
def readFrom : Mode → Level → List Level → List Char → Option Expr
  | .outside, level, outer, [] => if outer.isEmpty then some level.expr else none
  | _, _, _, [] => none
  | .outside, level, outer, c :: rest =>
    if c = '\\' then readFrom .escape level outer rest
    else if c = '[' then readFrom (.brackets []) level outer rest
    else if c = '\x7b' then readFrom (.braces []) level outer rest
    else if c = '(' then readFrom .outside {} (level :: outer) rest
    else if c = ')' then
      match outer with
      | [] => none
      | around :: outer => readFrom .outside (around.push level.expr) outer rest
    else if c = '|' then readFrom .outside level.bar outer rest
    else
      match signBounds? c with
      | some (low, high) =>
        match level.repeatLast? low high with
        | some level => readFrom .outside level outer rest
        | none => none
      | none =>
        match bareClass? c with
        | some cls => readFrom .outside (level.push (.one cls)) outer rest
        | none => none
  | .escape, level, outer, c :: rest =>
    readFrom .outside (level.push (.one (.char c))) outer rest
  | .brackets members, level, outer, c :: rest =>
    if c = '\\' then readFrom (.bracketsEscape members) level outer rest
    else if c = ']' then
      match classOf? members.reverse with
      | some cls => readFrom .outside (level.push (.one cls)) outer rest
      | none => none
    else readFrom (.brackets ((c, false) :: members)) level outer rest
  | .bracketsEscape members, level, outer, c :: rest =>
    readFrom (.brackets ((c, true) :: members)) level outer rest
  | .braces seen, level, outer, c :: rest =>
    if c = '\x7d' then
      match boundsOf? seen.reverse with
      | some (low, high) =>
        match level.repeatLast? low high with
        | some level => readFrom .outside level outer rest
        | none => none
      | none => none
    else readFrom (.braces (c :: seen)) level outer rest

/-- The expression that a text is in the dialect of the engine. -/
def read? (cs : List Char) : Option Expr :=
  readFrom .outside {} [] cs

/-- Whether a pattern of the engine matches a whole term. -/
def Matches (pattern term : String) : Prop :=
  ∃ expr, read? pattern.toList = some expr ∧ term.toList ∈ expr.language

/-! ### Languages of levels -/

theorem language_foldl_sequence (parts : List Expr) (last : Expr) :
  (parts.foldl (fun rest first => Expr.sequence first rest) last).language
    = (parts.reverse.map Expr.language).prod * last.language
  := by
  induction parts generalizing last with
  | nil => rw [List.foldl_nil, List.reverse_nil, List.map_nil, List.prod_nil, one_mul]
  | cons part parts ih =>
    rw [List.foldl_cons, ih, List.reverse_cons, List.map_append, List.prod_append, mul_assoc]
    simp [Expr.language]

theorem language_foldl_either (done : List Expr) (last : Expr) :
  (done.foldl (fun rest first => Expr.either first rest) last).language
    = (done.map Expr.language).sum + last.language
  := by
  induction done generalizing last with
  | nil => rw [List.foldl_nil, List.map_nil, List.sum_nil, zero_add]
  | cons first done ih =>
    rw [List.foldl_cons, ih, List.map_cons, List.sum_cons, Expr.language, add_left_comm, add_assoc]

namespace Level

/-- The terms that the alternatives before the last bar match. -/
def doneLanguage (level : Level) : Language Char :=
  (level.done.map Expr.language).sum

/-- The terms that the parts behind the last bar match. -/
def partsLanguage (level : Level) : Language Char :=
  (level.parts.reverse.map Expr.language).prod

theorem language_expr (level : Level) :
  level.expr.language = level.doneLanguage + level.partsLanguage
  := by
  rw [expr, language_foldl_either, language_foldl_sequence, Expr.language, mul_one]
  rfl

@[simp]
theorem doneLanguage_push (level : Level) (part : Expr) :
  (level.push part).doneLanguage = level.doneLanguage
  := rfl

@[simp]
theorem partsLanguage_push (level : Level) (part : Expr) :
  (level.push part).partsLanguage = level.partsLanguage * part.language
  := by
  simp [partsLanguage, push]

@[simp]
theorem doneLanguage_bar (level : Level) :
  level.bar.doneLanguage = level.doneLanguage + level.partsLanguage
  := by
  rw [doneLanguage, bar, List.map_cons, List.sum_cons, language_foldl_sequence, Expr.language,
    mul_one, add_comm]
  rfl

@[simp]
theorem partsLanguage_bar (level : Level) :
  level.bar.partsLanguage = 1
  := rfl

end Level

/-! ### Reading part by part -/

/-- Whether a text is read as one part, whatever stands around it. -/
def Reads (text : List Char) (part : Expr) : Prop :=
  ∀ level outer rest, readFrom .outside level outer (text ++ rest)
    = readFrom .outside (level.push part) outer rest

/-- The characters that the reader heeds outside brackets, but for those it does not read. -/
def operators : List Char :=
  ['\\', '[', '\x7b', '(', ')', '|', '*', '+', '?']

theorem reads_bare {c : Char} {cls : Class} (hc : c ∉ operators) (hcls : bareClass? c = some cls) :
  Reads [c] (.one cls)
  := by
  intro level outer rest
  simp only [operators, List.mem_cons, List.not_mem_nil, or_false, not_or] at hc
  obtain ⟨h1, h2, h3, h4, h5, h6, h7, h8, h9⟩ := hc
  have hsign : signBounds? c = none := by simp [signBounds?, h7, h8, h9]
  rw [List.singleton_append, readFrom.eq_def]
  simp [h1, h2, h3, h4, h5, h6, hsign, hcls]

theorem reads_escape (c : Char) :
  Reads ['\\', c] (.one (.char c))
  := by
  intro level outer rest
  rfl

/-- What is in brackets is read up to the closing one. -/
theorem readFrom_brackets {text : List Char} (htext : ∀ c ∈ text, c ≠ '\\' ∧ c ≠ ']')
    {members : List Member} {cls : Class}
    (hcls : classOf? (members.reverse ++ text.map fun c => (c, false)) = some cls) (level : Level)
    (outer : List Level) (rest : List Char) :
  readFrom (.brackets members) level outer (text ++ ']' :: rest)
    = readFrom .outside (level.push (.one cls)) outer rest
  := by
  induction text generalizing members with
  | nil =>
    rw [List.map_nil, List.append_nil] at hcls
    rw [List.nil_append, readFrom.eq_def]
    simp [hcls]
  | cons c text ih =>
    obtain ⟨hbackslash, hclose⟩ := htext c (by simp)
    rw [List.cons_append, readFrom.eq_def]
    simp only [hbackslash, hclose, if_false]
    apply ih fun d hd => htext d (by simp [hd])
    simpa using hcls

/-- Members between brackets are read as the class of their ranges. -/
theorem reads_bracketed (negated : Bool) {members : List Char}
    (hmembers : ∀ c ∈ members, c ≠ '\\' ∧ c ≠ ']') (hne : members ≠ [])
    (hhead : members.head? ≠ some '^') :
  Reads (bracketed negated members)
    (.one { negated, ranges := rangesOf (members.map fun c => (c, false)) })
  := by
  intro level outer rest
  have hopen : bracketed negated members ++ rest
      = '[' :: (((if negated then ['^'] else []) ++ members) ++ ']' :: rest) := by
    simp [bracketed]
  rw [hopen]
  apply readFrom_brackets
  · rw [List.forall_mem_append]
    constructor
    · cases negated <;> simp
    · exact hmembers
  · cases negated with
    | true => simp [classOf?, hne]
    | false =>
      cases members with
      | nil => exact absurd rfl hne
      | cons c members =>
        have hc : c ≠ '^' := by simpa using hhead
        simp [classOf?, hc]

theorem readFrom_openGroup (level : Level) (outer : List Level) (rest : List Char) :
  readFrom .outside level outer ('(' :: rest) = readFrom .outside {} (level :: outer) rest
  := rfl

theorem readFrom_closeGroup (level around : Level) (outer : List Level) (rest : List Char) :
  readFrom .outside level (around :: outer) (')' :: rest)
    = readFrom .outside (around.push level.expr) outer rest
  := rfl

theorem readFrom_bar (level : Level) (outer : List Level) (rest : List Char) :
  readFrom .outside level outer ('|' :: rest) = readFrom .outside level.bar outer rest
  := rfl

/-- A repetition sign repeats the part before it. -/
theorem readFrom_sign {c : Char} (hc : c = '*' ∨ c = '+' ∨ c = '?') {low : Nat} {high : Option Nat}
    (hbounds : signBounds? c = some (low, high)) (level : Level) (part : Expr) (outer : List Level)
    (rest : List Char) :
  readFrom .outside (level.push part) outer (c :: rest)
    = readFrom .outside (level.push (.repetition low high part)) outer rest
  := by
  obtain rfl | rfl | rfl := hc
  all_goals
    obtain ⟨rfl, rfl⟩ := Prod.mk.inj (Option.some.inj hbounds)
    rfl

theorem readFrom_braces {text seen : List Char} (htext : '\x7d' ∉ text) {low : Nat}
    {high : Option Nat} (hbounds : boundsOf? (seen.reverse ++ text) = some (low, high))
    (level : Level) (part : Expr) (outer : List Level) (rest : List Char) :
  readFrom (.braces seen) (level.push part) outer (text ++ '\x7d' :: rest)
    = readFrom .outside (level.push (.repetition low high part)) outer rest
  := by
  induction text generalizing seen with
  | nil =>
    rw [List.append_nil] at hbounds
    rw [List.nil_append, readFrom.eq_def]
    simp [hbounds, Level.repeatLast?, Level.push]
  | cons c text ih =>
    simp only [List.mem_cons, not_or] at htext
    rw [List.cons_append, readFrom.eq_def]
    simp only [Ne.symm htext.1, if_false]
    apply ih htext.2
    simpa using hbounds

/-- Bounds between braces repeat the part before them. -/
theorem readFrom_counts {text : List Char} (htext : '\x7d' ∉ text) {low : Nat} {high : Option Nat}
    (hbounds : boundsOf? text = some (low, high)) (level : Level) (part : Expr) (outer : List Level)
    (rest : List Char) :
  readFrom .outside (level.push part) outer ('\x7b' :: text ++ '\x7d' :: rest)
    = readFrom .outside (level.push (.repetition low high part)) outer rest
  := by
  have hseen : boundsOf? (([] : List Char).reverse ++ text) = some (low, high) := hbounds
  exact readFrom_braces htext hseen level part outer rest

/-! ### Languages of texts -/

/-- Whether a text is read as one part with a language. -/
def IsPart (text : List Char) (L : Language Char) : Prop :=
  ∃ part, Reads text part ∧ part.language = L

/-- Whether a text is read as parts that have a language together. -/
def AreParts (text : List Char) (L : Language Char) : Prop :=
  ∀ level, ∃ next : Level,
    (∀ outer rest, readFrom .outside level outer (text ++ rest) = readFrom .outside next outer rest)
    ∧ next.doneLanguage = level.doneLanguage ∧ next.partsLanguage = level.partsLanguage * L

/-- Whether a text is read as alternatives that have a language together. -/
def AreAlternatives (text : List Char) (L : Language Char) : Prop :=
  ∀ level : Level, level.partsLanguage = 1 → ∃ next : Level,
    (∀ outer rest, readFrom .outside level outer (text ++ rest) = readFrom .outside next outer rest)
    ∧ next.expr.language = level.doneLanguage + L

section

variable {text braced first second : List Char} {L M : Language Char} {low : Nat}
  {high : Option Nat}

/-- A part repeated is one part. -/
theorem IsPart.sign {c : Char} (h : IsPart text L) (hc : c = '*' ∨ c = '+' ∨ c = '?')
    (hbounds : signBounds? c = some (low, high)) :
  IsPart (text ++ [c]) (repeated low high L)
  := by
  obtain ⟨part, hreads, rfl⟩ := h
  use .repetition low high part
  refine ⟨?_, rfl⟩
  intro level outer rest
  rw [List.append_assoc, hreads, List.singleton_append, readFrom_sign hc hbounds]

theorem IsPart.counts (h : IsPart text L) (hclose : '\x7d' ∉ braced)
    (hbounds : boundsOf? braced = some (low, high)) :
  IsPart (text ++ ('\x7b' :: braced ++ ['\x7d'])) (repeated low high L)
  := by
  obtain ⟨part, hreads, rfl⟩ := h
  use .repetition low high part
  refine ⟨?_, rfl⟩
  intro level outer rest
  rw [List.append_assoc, hreads, List.append_assoc, List.singleton_append,
    readFrom_counts hclose hbounds]

theorem IsPart.areParts (h : IsPart text L) :
  AreParts text L
  := by
  obtain ⟨part, hreads, rfl⟩ := h
  intro level
  use level.push part
  exact ⟨hreads level, level.doneLanguage_push part, level.partsLanguage_push part⟩

theorem AreParts.nil :
  AreParts [] 1
  := fun level => ⟨level, fun _ _ => rfl, rfl, (mul_one _).symm⟩

theorem AreParts.append (hfirst : AreParts first L) (hsecond : AreParts second M) :
  AreParts (first ++ second) (L * M)
  := by
  intro level
  obtain ⟨middle, hreadFirst, hdoneFirst, hpartsFirst⟩ := hfirst level
  obtain ⟨next, hreadSecond, hdoneSecond, hpartsSecond⟩ := hsecond middle
  use next
  refine ⟨?_, ?_, ?_⟩
  · intro outer rest
    rw [List.append_assoc, hreadFirst, hreadSecond]
  · rw [hdoneSecond, hdoneFirst]
  · rw [hpartsSecond, hpartsFirst, mul_assoc]

/-- Nothing is read as parts that match the empty term only. -/
theorem AreParts.eq_one (h : AreParts [] L) :
  L = 1
  := by
  obtain ⟨next, hread, hdone, hparts⟩ := h {}
  have hexpr : some ({} : Level).expr = some next.expr := by
    exact hread [] []
  calc
    L = next.doneLanguage + next.partsLanguage := by
      rw [hdone, hparts]
      exact (one_mul L).symm.trans (zero_add _).symm
    _ = ({} : Level).expr.language := by rw [← next.language_expr, Option.some.inj hexpr]
    _ = 1 := rfl

theorem AreParts.areAlternatives (h : AreParts text L) :
  AreAlternatives text L
  := by
  intro level hlevel
  obtain ⟨next, hread, hdone, hparts⟩ := h level
  use next, hread
  rw [next.language_expr, hdone, hparts, hlevel, one_mul]

theorem AreParts.bar (hfirst : AreParts first L) (hsecond : AreAlternatives second M) :
  AreAlternatives (first ++ '|' :: second) (L + M)
  := by
  intro level hlevel
  obtain ⟨middle, hreadFirst, hdone, hparts⟩ := hfirst level
  obtain ⟨next, hreadSecond, hnext⟩ := hsecond middle.bar middle.partsLanguage_bar
  use next
  constructor
  · intro outer rest
    rw [List.append_assoc, List.cons_append, hreadFirst, readFrom_bar, hreadSecond]
  · rw [hnext, middle.doneLanguage_bar, hdone, hparts, hlevel, one_mul, add_assoc]

/-- Alternatives in a group are one part. -/
theorem AreAlternatives.group (h : AreAlternatives text L) :
  IsPart ('(' :: text ++ [')']) L
  := by
  obtain ⟨inner, hread, hinner⟩ := h {} rfl
  use inner.expr
  constructor
  · intro level outer rest
    rw [List.append_assoc, List.cons_append, readFrom_openGroup, hread, List.singleton_append,
      readFrom_closeGroup]
  · apply hinner.trans
    apply zero_add

/-- A text of alternatives is an expression with their language. -/
theorem AreAlternatives.read? (h : AreAlternatives text L) :
  ∃ expr, read? text = some expr ∧ expr.language = L
  := by
  obtain ⟨next, hread, hnext⟩ := h {} rfl
  use next.expr
  constructor
  · have htext := hread [] []
    rw [List.append_nil] at htext
    exact htext
  · apply hnext.trans
    apply zero_add

/-- A pattern that is a text of alternatives matches the terms of their language. -/
theorem AreAlternatives.matches_iff (h : AreAlternatives text L) {term : String} :
  Matches (String.ofList text) term ↔ term.toList ∈ L
  := by
  obtain ⟨expr, hread, rfl⟩ := h.read?
  rw [Matches, String.toList_ofList]
  constructor
  · rintro ⟨found, hfound, hterm⟩
    cases hread.symm.trans hfound
    exact hterm
  · intro hterm
    exact ⟨expr, hread, hterm⟩

end

end Sift.Dialect
