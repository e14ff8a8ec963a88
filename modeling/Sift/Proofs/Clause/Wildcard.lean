import Sift.Clause.Compile
import Sift.Proofs.Pattern.Conversion

/-!
# Texts with wildcards

The pattern of a text with wildcards is that of a regular expression (`Regex.chars_like`), which can
always be written for the engine if it passes the syntax check. The check reads it character by
character, and what it makes of it is a plain sequence between two anchors, so that only its size
can be wrong: `toEngine_likePattern_iff` says that the pattern can be written for the engine exactly
if its automata are within the limit, and how large they are.
-/

namespace Sift

open Pattern

/-! ### Texts with wildcards as regular expressions -/

namespace Regex

theorem notMem_metacharacters {c : Char} (hrun : ¬(c = '*' ∨ c = '%')) (hone : ¬(c = '?' ∨ c = '_'))
    (hsign : c ∉ patternSigns) :
  c ∉ metacharacters
  := by
  simp only [patternSigns, metacharacters, List.mem_cons, List.not_mem_nil, or_false] at hsign ⊢
  tauto

theorem isAlphanum_of_mem_patternSigns {c : Char} (hsign : c ∈ patternSigns) :
  c.isAlphanum = false
  := by
  have hall : patternSigns.all (fun c => !c.isAlphanum) = true := by decide
  simpa using List.all_eq_true.mp hall c hsign

/-- The atom for one character of a text with wildcards, and its quantifier. -/
def wildcard (c : Char) : Atom × Option Quantifier :=
  if hrun : c = '*' ∨ c = '%' then (.dot, some .star)
  else if hone : c = '?' ∨ c = '_' then (.dot, none)
  else if hsign : c ∈ patternSigns then (.escaped c (isAlphanum_of_mem_patternSigns hsign), none)
  else (.literal c (notMem_metacharacters hrun hone hsign), none)

/-- The sequence for a text with wildcards. -/
def wildcards (text : List Char) : Sequence :=
  text.foldr (fun c rest => .cons (wildcard c).1 (wildcard c).2 rest) .nil

/-- The regular expression for a text with wildcards. -/
def like (text : List Char) : Regex where
  first := { atStart := true, body := wildcards text, atEnd := true }
  others := []

theorem chars_wildcard (c : Char) :
  (wildcard c).1.chars ++ quantifierChars (wildcard c).2 = wildcardPiece c
  := by
  rw [wildcard, wildcardPiece]
  by_cases hrun : c = '*' ∨ c = '%'
  · rw [dif_pos hrun, if_pos hrun]
    rfl
  · rw [dif_neg hrun, if_neg hrun]
    by_cases hone : c = '?' ∨ c = '_'
    · rw [dif_pos hone, if_pos hone]
      rfl
    · rw [dif_neg hone, if_neg hone]
      by_cases hsign : c ∈ patternSigns
      · rw [dif_pos hsign, if_pos (List.contains_iff_mem.mpr hsign)]
        rfl
      · rw [dif_neg hsign, if_neg (by simpa using hsign)]
        rfl

theorem chars_wildcards (text : List Char) :
  (wildcards text).chars = text.flatMap wildcardPiece
  := by
  induction text with
  | nil => rfl
  | cons c rest ih =>
    change (wildcard c).1.chars ++ quantifierChars (wildcard c).2 ++ (wildcards rest).chars = _
    rw [chars_wildcard, ih, List.flatMap_cons]

/-- The regular expression for a text with wildcards is written as its pattern. -/
theorem chars_like (text : List Char) :
  (like text).chars = likePattern text
  := by
  simp [chars, branches, like, Branch.chars, chars_wildcards, likePattern]

theorem names_wildcards (text : List Char) :
  (wildcards text).names = []
  := by
  induction text with
  | nil => rfl
  | cons c rest ih =>
    have hatom : (wildcard c).1.names = [] := by
      rw [wildcard]
      split
      · rfl
      · split
        · rfl
        · split <;> rfl
    change (wildcard c).1.names ++ (wildcards rest).names = []
    rw [hatom, ih]
    rfl

end Regex

namespace Pattern

/-- The pattern of a text with wildcards can be written for the engine if it passes the syntax
check. -/
theorem toEngine_likePattern_of_check {text : List Char} (h : check (likePattern text) = .ok ())
    (ignoreCase : Bool) :
  toEngine (String.ofList (likePattern text)) ignoreCase
    = .ok (String.ofList ((Regex.wildcards text).piece ignoreCase))
  := by
  have hnames : ∀ name ∈ (Regex.like text).names, Regex.bracketsClose false name = true := by
    have hnil : (Regex.like text).names = [] := by
      simp [Regex.names, Regex.branches, Regex.like, Regex.names_wildcards]
    simp [hnil]
  have hconvert := Regex.convert_chars ignoreCase (Regex.like text) hnames
    (by rw [Regex.chars_like, h])
  rw [Regex.chars_like] at hconvert
  rw [toEngine, String.toList_ofList, hconvert]
  simp [Regex.like, Regex.branches, Regex.Branch.piece, Except.map]

/-- What can be written for the engine passes the syntax check. -/
theorem check_of_toEngine {pattern converted : String} {ignoreCase : Bool}
    (h : toEngine pattern ignoreCase = .ok converted) :
  check pattern.toList = .ok ()
  := by
  obtain ⟨-, -, hcheck, -⟩ := toEngine_inv h
  exact hcheck

/-! ### What the syntax check reads -/

/-- The regular expression of one character of a text with wildcards, where a slash is not
escaped. -/
def barePiece (c : Char) : List Char :=
  if c = '/' then ['/'] else wildcardPiece c

theorem bareSlashes_cons {c : Char} (hc : c ≠ '\\') (rest : List Char) :
  bareSlashes (c :: rest) = c :: bareSlashes rest
  := by
  rw [bareSlashes]
  · rintro _ rfl
    exact absurd rfl hc
  · rintro _ _ rfl
    exact absurd rfl hc

theorem bareSlashes_escape {c : Char} (hc : c ≠ '/') (rest : List Char) :
  bareSlashes ('\\' :: c :: rest) = '\\' :: c :: bareSlashes rest
  := by
  rw [bareSlashes]
  rintro rfl
  exact absurd rfl hc

theorem bareSlashes_wildcardPiece (c : Char) (rest : List Char) :
  bareSlashes (wildcardPiece c ++ rest) = barePiece c ++ bareSlashes rest
  := by
  by_cases hslash : c = '/'
  · subst hslash
    rfl
  rw [barePiece, if_neg hslash, wildcardPiece]
  by_cases hrun : c = '*' ∨ c = '%'
  · rw [if_pos hrun]
    exact (bareSlashes_cons (by decide) _).trans
      (congrArg ('.' :: ·) (bareSlashes_cons (by decide) rest))
  rw [if_neg hrun]
  by_cases hone : c = '?' ∨ c = '_'
  · rw [if_pos hone]
    exact bareSlashes_cons (by decide) rest
  rw [if_neg hone]
  by_cases hsign : patternSigns.contains c = true
  · rw [if_pos hsign]
    exact bareSlashes_escape hslash rest
  · rw [if_neg hsign]
    apply bareSlashes_cons
    rintro rfl
    exact hsign (by decide)

theorem bareSlashes_likePattern (text : List Char) :
  bareSlashes (likePattern text) = '^' :: (text.flatMap barePiece ++ ['$'])
  := by
  have hbody : bareSlashes (text.flatMap wildcardPiece ++ ['$'])
      = text.flatMap barePiece ++ ['$'] := by
    induction text with
    | nil => rfl
    | cons c rest ih =>
      rw [List.flatMap_cons, List.flatMap_cons, List.append_assoc, bareSlashes_wildcardPiece, ih,
        List.append_assoc]
  rw [likePattern, List.cons_append, bareSlashes_cons (by decide), hbody]

/-- The form of any character but a line feed. -/
def anyForm : Form :=
  .ofClass (singleton '\n').complement

/-- What the syntax check makes of one character of a text with wildcards. -/
def wildcardForm (c : Char) : Nested Form :=
  if c = '*' ∨ c = '%' then (Nested.flat anyForm).around (.ofRepetition 0 none false)
  else if c = '?' ∨ c = '_' then .flat anyForm
  else .flat (.literal [c])

/-- The characters that stand for something else than a part of a sequence. -/
def structural : List Char := ['(', ')', '|', '[', '?', '*', '+', '\x7b']

theorem readPrimitive_escape {c : Char} (hsign : c ∈ patternSigns) (rest : List Char) :
  readPrimitive '\\' (c :: rest) = .ok (.literal [c], rest)
  := by
  simp only [patternSigns, List.mem_cons, List.not_mem_nil, or_false] at hsign
  obtain rfl | rfl | rfl | rfl | rfl | rfl | rfl | rfl | rfl | rfl | rfl | rfl | rfl := hsign <;> rfl

theorem readPrimitive_literal {c : Char} (hsign : c ∉ patternSigns) (rest : List Char) :
  readPrimitive c rest = .ok (.literal [c], rest)
  := by
  simp only [patternSigns, List.mem_cons, List.not_mem_nil, or_false, not_or] at hsign
  simp only [readPrimitive, hsign, if_false]

/-- What is read of one character of a text with wildcards: a dot and a star, a dot, an escape or
the character itself. -/
theorem barePiece_cases (c : Char) :
  (barePiece c = ['.', '*']
      ∧ wildcardForm c = (Nested.flat anyForm).around (.ofRepetition 0 none false))
    ∨ (barePiece c = ['.'] ∧ wildcardForm c = .flat anyForm)
    ∨ (barePiece c = ['\\', c] ∧ wildcardForm c = .flat (.literal [c])
      ∧ ∀ rest, readPrimitive '\\' (c :: rest) = .ok (.literal [c], rest))
    ∨ (barePiece c = [c] ∧ wildcardForm c = .flat (.literal [c]) ∧ c ∉ structural
      ∧ ∀ rest, readPrimitive c rest = .ok (.literal [c], rest))
  := by
  by_cases hslash : c = '/'
  · subst hslash
    exact .inr (.inr (.inr ⟨rfl, rfl, by decide, fun _ => rfl⟩))
  rw [barePiece, if_neg hslash, wildcardPiece, wildcardForm]
  by_cases hrun : c = '*' ∨ c = '%'
  · exact .inl ⟨if_pos hrun, if_pos hrun⟩
  rw [if_neg hrun, if_neg hrun]
  by_cases hone : c = '?' ∨ c = '_'
  · exact .inr (.inl ⟨if_pos hone, if_pos hone⟩)
  rw [if_neg hone, if_neg hone]
  by_cases hsign : c ∈ patternSigns
  · rw [if_pos (List.contains_iff_mem.mpr hsign)]
    exact .inr (.inr (.inl ⟨rfl, rfl, readPrimitive_escape hsign⟩))
  · rw [if_neg (by simpa using hsign)]
    refine .inr (.inr (.inr ⟨rfl, rfl, ?_, readPrimitive_literal hsign⟩))
    simp only [structural, patternSigns, List.mem_cons, List.not_mem_nil, or_false,
      not_or] at hsign ⊢
    tauto

/-- No repetition sign follows behind one character of a text with wildcards. -/
theorem head?_barePieces_ne (text : List Char) :
  (text.flatMap barePiece ++ ['$']).head? ≠ some '?'
  := by
  cases text with
  | nil => decide
  | cons c rest =>
    rw [List.flatMap_cons]
    obtain ⟨hpiece, -⟩ | ⟨hpiece, -⟩ | ⟨hpiece, -⟩ | ⟨hpiece, -, hc, -⟩ := barePiece_cases c
    · simp [hpiece]
    · simp [hpiece]
    · simp [hpiece]
    · rw [hpiece]
      rintro ⟨⟩
      exact hc (by decide)

theorem readAlternatives_primitive {c : Char} (hc : c ∉ structural) {text rest : List Char}
    {form : Form} (hread : readPrimitive c text = .ok (form, rest)) (fuel : Nat) (groups : Groups)
    (parts : List (Nested Form)) :
  readAlternatives (fuel + 1) false groups parts [] (c :: text)
    = readAlternatives fuel false groups (.flat form :: parts) [] rest
  := by
  simp only [structural, List.mem_cons, List.not_mem_nil, or_false, not_or] at hc
  rw [readAlternatives]
  simp only [hc, if_false, or_self, hread]
  rfl

theorem readAlternatives_star {rest : List Char} (hrest : rest.head? ≠ some '?') (fuel : Nat)
    (groups : Groups) (part : Nested Form) (parts : List (Nested Form)) :
  readAlternatives (fuel + 1) false groups (part :: parts) [] ('*' :: rest)
    = readAlternatives fuel false groups (part.around (.ofRepetition 0 none false) :: parts) [] rest
  := by
  have hlazy : readLazy rest = (false, rest) := by
    rw [readLazy.eq_def]
    split
    · exact absurd rfl hrest
    · rfl
  rw [readAlternatives]
  simp only [Char.reduceEq, if_false, hlazy, or_true, true_or, if_true]
  rfl

/-- One character of a text with wildcards is read as one part of a sequence. -/
theorem readAlternatives_barePiece (c : Char) {rest : List Char} (hrest : rest.head? ≠ some '?')
    {fuel : Nat} (hfuel : (barePiece c ++ rest).length < fuel) (groups : Groups)
    (parts : List (Nested Form)) :
  ∃ less, rest.length < less ∧ readAlternatives fuel false groups parts [] (barePiece c ++ rest)
    = readAlternatives less false groups (wildcardForm c :: parts) [] rest
  := by
  obtain ⟨less, rfl⟩ := Nat.exists_eq_add_one.mpr (Nat.zero_lt_of_lt hfuel)
  obtain ⟨hpiece, hform⟩ | ⟨hpiece, hform⟩ | ⟨hpiece, hform, hread⟩ | ⟨hpiece, hform, hc, hread⟩ :=
    barePiece_cases c
  · simp only [hpiece, List.cons_append, List.nil_append, List.length_cons] at hfuel
    obtain ⟨less, rfl⟩ : ∃ fewer, less = fewer + 1 := ⟨less - 1, by omega⟩
    use less, by omega
    rw [hpiece, hform, ← readAlternatives_star hrest]
    exact readAlternatives_primitive (by decide) rfl _ _ _
  · simp only [hpiece, List.cons_append, List.nil_append, List.length_cons] at hfuel
    use less, by omega
    rw [hpiece, hform]
    exact readAlternatives_primitive (by decide) rfl _ _ _
  · simp only [hpiece, List.cons_append, List.nil_append, List.length_cons] at hfuel
    use less, by omega
    rw [hpiece, hform]
    exact readAlternatives_primitive (by decide) (hread rest) _ _ _
  · simp only [hpiece, List.cons_append, List.nil_append, List.length_cons] at hfuel
    use less, by omega
    rw [hpiece, hform]
    exact readAlternatives_primitive hc (hread rest) _ _ _

/-- A text with wildcards is read character by character. -/
theorem readAlternatives_barePieces (text : List Char) {fuel : Nat}
    (hfuel : (text.flatMap barePiece ++ ['$']).length < fuel) (groups : Groups)
    (parts : List (Nested Form)) :
  readAlternatives fuel false groups parts [] (text.flatMap barePiece ++ ['$'])
    = .ok (closing (.flat (.assertion .textEnd) :: (text.map wildcardForm).reverse ++ parts) [],
        groups, [])
  := by
  induction text generalizing fuel parts with
  | nil =>
    obtain ⟨less, rfl⟩ : ∃ fewer, fuel = fewer + 2 := ⟨fuel - 2, by simp at hfuel; omega⟩
    have hdollar : '$' ∉ structural := by decide
    exact readAlternatives_primitive hdollar rfl (less + 1) groups parts
  | cons c rest ih =>
    rw [List.flatMap_cons, List.append_assoc] at hfuel ⊢
    obtain ⟨less, hless, hread⟩ :=
      readAlternatives_barePiece c (head?_barePieces_ne rest) hfuel groups parts
    rw [hread, ih hless]
    simp

/-! ### How large the automata are -/

namespace Form

theorem byteCount_append (cs ds : List Char) :
  byteCount (cs ++ ds) = byteCount cs + byteCount ds
  := by
  induction cs with
  | nil => simp [byteCount]
  | cons c cs ih =>
    change width c.toNat + byteCount (cs ++ ds) = width c.toNat + byteCount cs + byteCount ds
    rw [ih, Nat.add_assoc]

theorem joinLiterals_cons {part : Form} (hpart : ∀ cs, part ≠ literal cs) (rest : List Form) :
  joinLiterals (part :: rest) = part :: joinLiterals rest
  := by
  cases part with
  | literal cs => exact absurd rfl (hpart cs)
  | _ => rfl

/-- What is no text at the end of some parts stays there. -/
theorem joinLiterals_concat {part : Form} (hpart : ∀ cs, part ≠ literal cs) (rest : List Form) :
  joinLiterals (rest ++ [part]) = joinLiterals rest ++ [part]
  := by
  induction rest with
  | nil => exact joinLiterals_cons hpart []
  | cons first rest ih =>
    by_cases hfirst : ∃ cs, first = literal cs
    · obtain ⟨cs, rfl⟩ := hfirst
      rw [List.cons_append, joinLiterals.eq_def, joinLiterals.eq_def]
      simp only [ih]
      cases joinLiterals rest with
      | nil =>
        cases part with
        | literal ds => exact absurd rfl (hpart ds)
        | _ => rfl
      | cons next others => cases next <;> rfl
    · rw [not_exists] at hfirst
      rw [List.cons_append, joinLiterals_cons hfirst, joinLiterals_cons hfirst, ih,
        List.cons_append]

/-- Joining texts does not change the size. -/
theorem totalSize_joinLiterals (backward : Bool) (forms : List Form) :
  totalSize backward (joinLiterals forms) = totalSize backward forms
  := by
  induction forms with
  | nil => rfl
  | cons first rest ih =>
    rw [joinLiterals.eq_def]
    simp only
    split
    case h_1 cs ds others hjoined =>
      rw [hjoined, totalSize, size] at ih
      rw [totalSize, size, totalSize, size, ← ih, byteCount_append, Nat.add_mul, Nat.add_assoc]
    case h_2 => rw [totalSize, totalSize, ih]

theorem totalSize_append (backward : Bool) (parts others : List Form) :
  totalSize backward (parts ++ others) = totalSize backward parts + totalSize backward others
  := by
  induction parts with
  | nil => simp [totalSize]
  | cons part rest ih => rw [List.cons_append, totalSize, totalSize, ih, Nat.add_assoc]

theorem lastEndsWith_concat {a : Assertion} {part : Form} (hpart : part.endsWith a = true)
    (rest : List Form) :
  (lastEndsWith a (rest ++ [part])).1 = true
  := by
  induction rest with
  | nil => simp [lastEndsWith, hpart]
  | cons first rest ih => simp [lastEndsWith, ih]

end Form

/-- The bytes that one character of a text with wildcards takes in an automaton: as many states as
it has bytes, or what reads any character, and for a run of characters one more state with two
links. -/
def wildcardSize (backward : Bool) (c : Char) : Nat :=
  let anySize := if backward then 1000 else 424
  if c = '*' ∨ c = '%' then anySize + stateSize + 2 * linkSize
  else if c = '?' ∨ c = '_' then anySize
  else Form.width c.toNat * stateSize

/-- The bytes that the automaton for a text with wildcards takes: four states, two more forwards,
and what its characters take. -/
def wildcardsSize (backward : Bool) (text : List Char) : Nat :=
  (if backward then 4 * stateSize else 6 * stateSize)
    + text.foldr (fun c total => wildcardSize backward c + total) 0

/-- A character takes no more than a run of any characters. -/
theorem wildcardsSize_le (backward : Bool) (text : List Char) :
  wildcardsSize backward text ≤ 192 + 1040 * text.length
  := by
  have hchar (c : Char) : wildcardSize backward c ≤ 1040 := by
    have hwidth : Form.width c.toNat ≤ 4 := by
      rw [Form.width]
      split_ifs <;> omega
    simp only [wildcardSize, stateSize, linkSize]
    split_ifs <;> omega
  have hsum : text.foldr (fun c total => wildcardSize backward c + total) 0
      ≤ 1040 * text.length := by
    induction text with
    | nil => exact Nat.le_refl 0
    | cons c rest ih =>
      rw [List.foldr_cons, List.length_cons]
      have := hchar c
      omega
  rw [wildcardsSize, stateSize]
  split_ifs <;> omega

/-- A text of question marks is within the limit exactly if there are at most 10485 of them. -/
theorem wildcardsSize_replicate_iff (n : Nat) :
  (∀ backward, wildcardsSize backward (List.replicate n '?') ≤ sizeLimit) ↔ n ≤ 10485
  := by
  have hsum (backward : Bool) : (List.replicate n '?').foldr
      (fun c total => wildcardSize backward c + total) 0 = n * wildcardSize backward '?' := by
    induction n with
    | zero => rw [Nat.zero_mul, List.replicate_zero, List.foldr_nil]
    | succ n ih => rw [List.replicate_succ, List.foldr_cons, ih, Nat.succ_mul, Nat.add_comm]
  have hforward : wildcardSize false '?' = 424 := rfl
  have hbackward : wildcardSize true '?' = 1000 := rfl
  simp only [Bool.forall_bool, wildcardsSize, hsum, hforward, hbackward, stateSize, sizeLimit,
    Bool.false_eq_true, if_false, if_true]
  omega

theorem size_anyForm (backward : Bool) :
  anyForm.size backward = if backward then 1000 else 424
  := by
  cases backward <;> decide +kernel

theorem size_wildcardForm (backward : Bool) (c : Char) :
  (wildcardForm c).value.size backward = wildcardSize backward c
  := by
  rw [wildcardForm, wildcardSize]
  split
  · cases backward <;> decide +kernel
  · split
    · exact size_anyForm backward
    · simp [Nested.flat, Form.size, Form.byteCount]

theorem totalSize_wildcards (backward : Bool) (text : List Char) :
  Form.totalSize backward (text.map fun c => (wildcardForm c).value)
    = text.foldr (fun c total => wildcardSize backward c + total) 0
  := by
  induction text with
  | nil => rfl
  | cons c rest ih =>
    rw [List.map_cons, Form.totalSize, size_wildcardForm, ih, List.foldr_cons]

/-- What is made of one character of a text with wildcards is a single part, nested once at most. -/
theorem wildcardForm_flat (c : Char) :
  (wildcardForm c).value.parts = [(wildcardForm c).value] ∧ (wildcardForm c).depth ≤ 1
  := by
  rw [wildcardForm]
  split
  · exact ⟨rfl, by decide⟩
  · split
    · exact ⟨rfl, by decide⟩
    · exact ⟨rfl, Nat.zero_le 1⟩

/-- What the syntax check makes of the parts of a text with wildcards. -/
def wildcardsForm (text : List Char) : Form :=
  .sequence (.assertion .textStart
    :: (Form.joinLiterals (text.map fun c => (wildcardForm c).value) ++ [.assertion .textEnd]))

theorem ofParts_wildcards (text : List Char) :
  Form.ofParts (.assertion .textStart :: (text.map fun c => (wildcardForm c).value)
    ++ [.assertion .textEnd]) = wildcardsForm text
  := by
  have hparts : (text.map fun c => (wildcardForm c).value).flatMap Form.parts
      = text.map fun c => (wildcardForm c).value := by
    rw [List.flatMap_map, ← List.flatMap_pure_eq_map]
    apply List.flatMap_congr
    intro c _
    exact (wildcardForm_flat c).1
  have hjoined : Form.joinLiterals ((Form.assertion .textStart
        :: (text.map fun c => (wildcardForm c).value)
          ++ [Form.assertion .textEnd]).flatMap Form.parts)
      = Form.assertion .textStart
        :: (Form.joinLiterals (text.map fun c => (wildcardForm c).value)
          ++ [Form.assertion .textEnd]) := by
    rw [List.flatMap_append, List.flatMap_cons, hparts]
    change Form.joinLiterals (Form.assertion .textStart
      :: ((text.map fun c => (wildcardForm c).value) ++ [Form.assertion .textEnd])) = _
    have hanchor : ∀ (assertion : Assertion) (cs : List Char),
        Form.assertion assertion ≠ .literal cs := fun _ _ h => Form.noConfusion h
    rw [Form.joinLiterals_cons (hanchor _), Form.joinLiterals_concat (hanchor _)]
  rw [Form.ofParts, hjoined, wildcardsForm]
  cases Form.joinLiterals (text.map fun c => (wildcardForm c).value) <;> rfl

theorem foldl_max_le {bound start : Nat} {ns : List Nat} (hstart : start ≤ bound)
    (hns : ∀ n ∈ ns, n ≤ bound) :
  ns.foldl max start ≤ bound
  := by
  induction ns generalizing start with
  | nil => exact hstart
  | cons n ns ih =>
    rw [List.forall_mem_cons] at hns
    exact ih (Nat.max_le.mpr ⟨hstart, hns.1⟩) hns.2

/-- What is read between the ends of a text with wildcards, the last part first. -/
def wildcardsParts (text : List Char) : List (Nested Form) :=
  .flat (.assertion .textEnd) :: (text.map wildcardForm).reverse ++ [.flat (.assertion .textStart)]

/-- A text with wildcards is read as a sequence between two anchors. -/
theorem sequenceOf_wildcards (text : List Char) :
  (sequenceOf (wildcardsParts text)).value = wildcardsForm text
    ∧ (sequenceOf (wildcardsParts text)).depth ≤ 2
  := by
  have hreverse : (wildcardsParts text).reverse = Nested.flat (.assertion .textStart)
      :: (text.map wildcardForm ++ [.flat (.assertion .textEnd)]) := by
    simp [wildcardsParts]
  rw [sequenceOf, hreverse]
  constructor
  · rw [← ofParts_wildcards]
    simp [Nested.together, Nested.flat, Function.comp_def]
  · have hdepths : ∀ n ∈ (Nested.flat (.assertion .textStart)
        :: (text.map wildcardForm ++ [.flat (.assertion .textEnd)])).map Nested.depth, n ≤ 1 := by
      simp only [List.map_cons, List.map_append, List.map_map, List.forall_mem_cons,
        List.forall_mem_append, List.forall_mem_map]
      refine ⟨Nat.zero_le 1, fun c _ => (wildcardForm_flat c).2, Nat.zero_le 1, nofun⟩
    have hmax := foldl_max_le (Nat.zero_le 1) hdepths
    rw [Nested.together]
    simp only
    split <;> omega

theorem closing_wildcards (text : List Char) :
  (closing (wildcardsParts text) []).value = wildcardsForm text
    ∧ (closing (wildcardsParts text) []).depth ≤ 2
  := by
  obtain ⟨hvalue, hdepth⟩ := sequenceOf_wildcards text
  constructor
  · change Form.ofAlternatives [(sequenceOf (wildcardsParts text)).value] = _
    rw [hvalue]
    rfl
  · change max 0 (sequenceOf (wildcardsParts text)).depth + 0 ≤ 2
    omega

theorem automatonSize_wildcardsForm (backward : Bool) (text : List Char) :
  (wildcardsForm text).automatonSize backward = wildcardsSize backward text
  := by
  have hanchored : (wildcardsForm text).isAnchored backward = true := by
    cases backward with
    | false => rfl
    | true =>
      apply Form.lastEndsWith_concat _ (_ :: _)
      rfl
  rw [Form.automatonSize, Form.searchSize, if_pos hanchored, Form.size, wildcardsForm, Form.size,
    Form.totalSize, Form.totalSize_append, Form.totalSize_joinLiterals, totalSize_wildcards,
    wildcardsSize]
  cases backward <;> simp [Form.totalSize, Form.size] <;> omega

/-- The pattern of a text with wildcards passes the syntax check exactly if its automata are within
the limit. -/
theorem check_likePattern_iff (text : List Char) :
  check (likePattern text) = .ok () ↔ ∀ backward, wildcardsSize backward text ≤ sizeLimit
  := by
  have hread : readAlternatives ((bareSlashes (likePattern text)).length + 1) false [] [] []
      (bareSlashes (likePattern text)) = .ok (closing (wildcardsParts text) [], [], []) := by
    have hcircumflex : '^' ∉ structural := by decide
    rw [bareSlashes_likePattern, readAlternatives_primitive hcircumflex rfl,
      readAlternatives_barePieces text (by simp)]
    rfl
  obtain ⟨hvalue, hdepth⟩ := closing_wildcards text
  -- Two levels never reach the limit for nesting, so only the size can be refused.
  have hnested : ¬nestLimit < (closing (wildcardsParts text) []).depth := by
    rw [nestLimit]
    omega
  have hfits : fits (wildcardsForm text) = true
      ↔ ∀ backward, wildcardsSize backward text ≤ sizeLimit := by
    simp [fits, automatonSize_wildcardsForm]
  rw [← hfits, check, checkSyntax, hread]
  simp only [bind, Except.bind, if_neg hnested, hvalue]
  cases fits (wildcardsForm text) <;> simp [Except.mapError]

/-- The pattern of a text with wildcards can be written for the engine exactly if its automata are
within the limit. -/
theorem toEngine_likePattern_iff (text : List Char) (ignoreCase : Bool) :
  (∃ converted, toEngine (String.ofList (likePattern text)) ignoreCase = .ok converted)
    ↔ ∀ backward, wildcardsSize backward text ≤ sizeLimit
  := by
  rw [← check_likePattern_iff]
  constructor
  · rintro ⟨converted, h⟩
    have hcheck := check_of_toEngine h
    rwa [String.toList_ofList] at hcheck
  · intro h
    exact ⟨_, toEngine_likePattern_of_check h ignoreCase⟩

end Pattern

end Sift
