import Sift.Proofs.Pattern.RangeCase
import Sift.Proofs.Pattern.Steps

/-!
# Brackets in a pattern

The conversion reads a pattern from left to right, and so does `bracketsFrom`, which gives the
members of all bracket expressions that the conversion comes upon. What the conversion does with
one of them is told by `convertFrom_openBrackets_inv`: the brackets go up to the next bracket that
closes, and what stands between them are the members `Written` for those in the pattern. The other
inversions say the same of counts and of the names of groups, which hold no brackets.
-/

namespace Sift.Pattern

open Dialect (Member)

/-! ### Brackets of a pattern -/

/-- The members of the bracket expressions in a text, each without the circumflex that negates it,
where `members` are those of the first one in front of the text. -/
def bracketsFrom : Mode → List Member → List Char → List (List Member)
  | _, _, [] => []
  | .name, _, c :: rest => bracketsFrom (if c = '>' then .outside else .name) [] rest
  | .counts, _, c :: rest => bracketsFrom (if c = '\x7d' then .outside else .counts) [] rest
  | .brackets, members, c :: rest =>
    if c = ']' then members :: bracketsFrom .outside [] rest
    else if c = '\\' then
      match rest with
      | [] => []
      | d :: rest => bracketsFrom .brackets (members ++ [(d, true)]) rest
    else bracketsFrom .brackets (members ++ [(c, false)]) rest
  | .outside, _, c :: rest =>
    if c = '\\' then bracketsFrom .outside [] (rest.drop 1)
    else if c = '[' then
      match rest with
      | '^' :: rest => bracketsFrom .brackets [] rest
      | rest => bracketsFrom .brackets [] rest
    else if c = '(' then
      match rest with
      | '?' :: '<' :: rest => bracketsFrom .name [] rest
      | rest => bracketsFrom .outside [] rest
    else bracketsFrom (if c = '\x7b' then .counts else .outside) [] rest
termination_by _ _ cs => cs.length

variable {c : Char} {cs out rest : List Char} {members written : List Member}

/-! ### Texts of members -/

/-- The text of some members. -/
def membersText (members : List Member) : List Char :=
  members.flatMap memberText

theorem membersText_append (members others : List Member) :
  membersText (members ++ others) = membersText members ++ membersText others
  := List.flatMap_append

theorem membersText_bare (text : List Char) :
  membersText (text.map Regex.bare) = text
  := by
  rw [membersText, List.flatMap_map]
  exact List.flatMap_singleton' text

theorem membersText_ne_nil (h : members ≠ []) :
  membersText members ≠ []
  := by
  match members with
  | [] => exact absurd rfl h
  | (_, false) :: _ => exact List.cons_ne_nil _ _
  | (_, true) :: _ => exact List.cons_ne_nil _ _

/-- A circumflex at the beginning of the text of some members is the first of them. -/
theorem head?_membersText (members : List Member) (rest : List Char) :
  (membersText members ++ ']' :: rest).head? = some '^' ↔ members.head? = some ('^', false)
  := by
  match members with
  | [] => simp [membersText]
  | (c, false) :: members =>
    change some c = _ ↔ some (c, false) = _
    simp
  | (c, true) :: members =>
    change some '\\' = _ ↔ some (c, true) = _
    simp

theorem isMember_bare (hc : c ∉ insideSigns) :
  IsMember (c, false)
  := by
  simp only [insideSigns, List.mem_cons, List.not_mem_nil, or_false, not_or] at hc
  exact fun _ => ⟨hc.1, hc.2.1⟩

theorem isMember_of_isAlpha (hc : c.isAlpha = true) :
  IsMember (c, false) ∧ IsMember (otherCase c, false)
  := by
  obtain ⟨hc, hother⟩ := not_mem_insideSigns hc
  exact ⟨isMember_bare hc, isMember_bare hother⟩

theorem isMember_shorthand (kind : Regex.Shorthand) :
  ∀ x ∈ kind.members.map Regex.bare, IsMember x
  := by
  intro x hx
  obtain ⟨d, hd, rfl⟩ := List.mem_map.mp hx
  apply isMember_bare
  apply not_mem_insideSigns_of_mem
  cases kind with
  | space => simp [Regex.Shorthand.members] at hd; simp [hd]
  | digit => simp [Regex.Shorthand.members] at hd; simp [hd]
  | word => simp [Regex.Shorthand.members] at hd; simp [hd]

/-- Neither a member nor what is written for it ends the brackets. -/
theorem Written.isMember (h : Written members written) :
  (∀ x ∈ members, IsMember x) ∧ ∀ y ∈ written, IsMember y
  := by
  have hdash : IsMember ('-', false) := isMember_bare (by decide)
  induction h with
  | nil => simp
  | range hfirst hlast _ ih =>
    have hfirst := isMember_of_isAlpha hfirst
    have hlast := isMember_of_isAlpha hlast
    refine ⟨by simpa [hfirst, hlast, hdash] using ih.1, ?_⟩
    rw [List.forall_mem_append]
    refine ⟨?_, ih.2⟩
    rw [rangePiece]
    split
    · simp [Regex.bare, hfirst, hlast, hdash]
    · simp [Regex.bare, hfirst, hlast, hdash]
  | letter hc _ _ ih =>
    have hc := isMember_of_isAlpha hc
    refine ⟨by simpa [hc] using ih.1, ?_⟩
    rw [List.forall_mem_append]
    exact ⟨by simp [letterPiece, Regex.bare, hc], ih.2⟩
  | other hstands _ ih =>
    exact ⟨List.forall_mem_cons.mpr ⟨hstands.left, ih.1⟩,
      List.forall_mem_cons.mpr ⟨hstands.right, ih.2⟩⟩
  | shorthand kind _ ih =>
    refine ⟨List.forall_mem_cons.mpr ⟨by rintro ⟨⟩, ih.1⟩, ?_⟩
    rw [List.forall_mem_append]
    exact ⟨isMember_shorthand kind, ih.2⟩

/-! ### Conversion of brackets -/

theorem stands_bare (hc : c.isAlpha = false) (hbackslash : c ≠ '\\') (hclose : c ≠ ']') :
  Stands (c, false) (c, false) where
  meant := rfl
  noLetter := hc
  sign := fun _ _ => Iff.rfl
  left := fun _ => ⟨hbackslash, hclose⟩
  right := fun _ => ⟨hbackslash, hclose⟩

/-- What is escaped in brackets is a class, or it is written as one member. -/
theorem bracketEscapePiece_inv {piece : List Char} (h : bracketEscapePiece c = .ok piece) :
  (∃ kind : Regex.Shorthand, c = kind.letter false ∧ piece = kind.members)
    ∨ ∃ y, Stands (c, true) y ∧ piece = memberText y
  := by
  have hbare {d : Char} (hmeant : meant? (c, true) = some d) (hd : d ∉ ['-', '^', '\\', ']']) :
      Stands (c, true) (d, false) := by
    simp only [List.mem_cons, List.not_mem_nil, or_false, not_or] at hd
    obtain ⟨hdash, hcircumflex, hbackslash, hclose⟩ := hd
    refine ⟨hmeant, isAlpha_of_meant? hmeant, ?_, by rintro ⟨⟩, fun _ => ⟨hbackslash, hclose⟩⟩
    simp [hdash, hcircumflex]
  have hmeant {d : Char} (hd : piece = [d] ∨ piece = ['\\', d]) : meant? (c, true) = some d := by
    rw [meant?, h]
    obtain rfl | rfl := hd
    · rfl
    · rfl
  revert h hmeant
  fun_cases bracketEscapePiece c <;> intro h hmeant <;> cases h
  case case1 hc => exact .inl ⟨.space, hc, rfl⟩
  case case2 _ hc => exact .inl ⟨.digit, hc, rfl⟩
  case case3 _ _ hc => exact .inl ⟨.word, hc, rfl⟩
  case case5 | case6 | case7 | case8 =>
    exact .inr ⟨_, hbare (hmeant (.inl rfl)) (by decide), rfl⟩
  case case10 =>
    have hmeant := hmeant (.inr rfl)
    refine .inr ⟨(c, true), ⟨hmeant, isAlpha_of_meant? hmeant, ?_, ?_, ?_⟩, rfl⟩
    · simp
    · rintro ⟨⟩
    · rintro ⟨⟩

/-- Whether some members in brackets are read in one step, in which others are written for them. -/
def WrittenStep (used piece : List Member) (rest : List Char) : Prop :=
  ∀ members written behind, rest = membersText members ++ ']' :: behind →
    Written members written → Written (used ++ members) (piece ++ written)

/-- The conversion of brackets ends with them, or it goes on by one step. -/
theorem step_of_convertFrom_brackets (h : convertFrom true .brackets cs = .ok out) :
  (∃ rest found, cs = ']' :: rest ∧ out = ']' :: found ∧ convertFrom true .outside rest = .ok found)
    ∨ ∃ used piece rest found, WrittenStep used piece rest ∧ used ≠ []
      ∧ cs = membersText used ++ rest ∧ out = membersText piece ++ found
      ∧ convertFrom true .brackets rest = .ok found
  := by
  have hemit {used piece : List Member} {rest text : List Char}
      (hstep : WrittenStep used piece rest) (hused : used ≠ [])
      (hcs : cs = membersText used ++ rest) (htext : membersText piece = text)
      (hout : emit text (convertFrom true .brackets rest) = .ok out) :
      ∃ used piece rest found, WrittenStep used piece rest ∧ used ≠ []
        ∧ cs = membersText used ++ rest ∧ out = membersText piece ++ found
        ∧ convertFrom true .brackets rest = .ok found := by
    rw [emit, map_eq_ok_iff] at hout
    obtain ⟨found, hfound, rfl⟩ := hout
    exact ⟨used, piece, rest, found, hstep, hused, hcs, by rw [htext], hfound⟩
  have hletter {c : Char} {rest : List Char} (hc : c.isAlpha = true)
      (hrest : ∀ last behind, rest = '-' :: last :: behind → last.isAlpha = false) :
      WrittenStep [(c, false)] ((letterPiece true c).map Regex.bare) rest := by
    intro members written behind hmembers hwritten
    apply Written.letter hc _ hwritten
    rintro last others rfl
    exact hrest last _ hmembers
  revert h
  generalize hmode : Mode.brackets = mode at hemit ⊢
  fun_cases convertFrom true mode cs <;> intro h <;> cases hmode
  case case1 | case8 | case10 => cases h
  case case7 rest =>
    rw [emit, map_eq_ok_iff] at h
    obtain ⟨found, hfound, rfl⟩ := h
    exact .inl ⟨rest, found, rfl, rfl, hfound⟩
  all_goals right
  case case9 d rest piece hpiece _ =>
    obtain ⟨kind, rfl, rfl⟩ | ⟨y, hstands, rfl⟩ := bracketEscapePiece_inv hpiece
    · have hstep : WrittenStep [(kind.letter false, true)] (kind.members.map Regex.bare) rest :=
        fun _ _ _ _ hwritten => .shorthand kind hwritten
      exact hemit hstep (List.cons_ne_nil _ _) rfl (membersText_bare _) h
    · have hstep : WrittenStep [(d, true)] [y] rest := fun _ _ _ _ hwritten =>
        .other hstands hwritten
      exact hemit hstep (List.cons_ne_nil _ _) rfl (List.append_nil _) h
  case case11 c _ _ hc last behind hlast =>
    have hstep : WrittenStep [(c, false), ('-', false), (last, false)]
        ((rangePiece true c last).map Regex.bare) behind :=
      fun _ _ _ _ hwritten => .range hc hlast hwritten
    exact hemit hstep (List.cons_ne_nil _ _) rfl (membersText_bare _) h
  case case12 c _ _ hc last behind hlast =>
    refine hemit (hletter hc ?_) (List.cons_ne_nil _ _) rfl (membersText_bare _) h
    rintro _ _ ⟨⟩
    exact Bool.eq_false_iff.mpr hlast
  case case13 c _ _ hc rest hrest =>
    refine hemit (hletter hc ?_) (List.cons_ne_nil _ _) rfl (membersText_bare _) h
    intro last behind heq
    exact absurd heq (hrest last behind)
  case case14 c rest hclose hbackslash hc =>
    have hstands := stands_bare (Bool.eq_false_iff.mpr hc) hbackslash hclose
    have hstep : WrittenStep [(c, false)] [(c, false)] rest := fun _ _ _ _ hwritten =>
      .other hstands hwritten
    exact hemit hstep (List.cons_ne_nil _ _) rfl rfl h

/-- Brackets that are converted have members, and what is written are the members written for
them. -/
theorem convertFrom_brackets_inv (h : convertFrom true .brackets cs = .ok out) :
  ∃ members written rest found, Written members written
    ∧ cs = membersText members ++ ']' :: rest
    ∧ out = membersText written ++ ']' :: found
    ∧ convertFrom true .outside rest = .ok found
  := by
  induction hlength : cs.length using Nat.strongRecOn generalizing cs out with
  | ind n ih =>
    obtain ⟨rest, found, rfl, rfl, hfound⟩
      | ⟨used, piece, rest, found, hstep, hused, rfl, rfl, hfound⟩ :=
        step_of_convertFrom_brackets h
    case inl => exact ⟨[], [], rest, found, .nil, rfl, rfl, hfound⟩
    case inr =>
      have hshorter : rest.length < n := by
        rw [← hlength, List.length_append]
        exact Nat.lt_add_of_pos_left (List.length_pos_of_ne_nil (membersText_ne_nil hused))
      obtain ⟨members, written, behind, found, hwritten, rfl, rfl, hbehind⟩ :=
        ih rest.length hshorter hfound rfl
      refine ⟨_, _, behind, found, hstep members written behind rfl hwritten, ?_, ?_, hbehind⟩
      · rw [membersText_append, List.append_assoc]
      · rw [membersText_append, List.append_assoc]

/-- Brackets that are converted may be negated. -/
theorem convertFrom_openBrackets_inv (h : convertFrom true .outside ('[' :: cs) = .ok out) :
  ∃ negated members written rest found, Written members written
    ∧ (negated = false → members.head? ≠ some ('^', false))
    ∧ cs = (if negated then ['^'] else []) ++ (membersText members ++ ']' :: rest)
    ∧ out = bracketed negated (membersText written) ++ found
    ∧ convertFrom true .outside rest = .ok found
  := by
  have hbody : ∃ negated body, cs = (if negated then ['^'] else []) ++ body
      ∧ (negated = false → body.head? ≠ some '^') := by
    by_cases hcs : cs.head? = some '^'
    case pos =>
      obtain ⟨body, rfl⟩ := List.head?_eq_some_iff.mp hcs
      exact ⟨true, body, rfl, by rintro ⟨⟩⟩
    case neg => exact ⟨false, cs, rfl, fun _ => hcs⟩
  obtain ⟨negated, body, rfl, hhead⟩ := hbody
  rw [← List.cons_append, convertFrom_brackets true body negated hhead, emit, map_eq_ok_iff] at h
  obtain ⟨inside, hinside, rfl⟩ := h
  obtain ⟨members, written, rest, found, hwritten, rfl, rfl, hfound⟩ :=
    convertFrom_brackets_inv hinside
  rw [Ne, head?_membersText] at hhead
  refine ⟨negated, members, written, rest, found, hwritten, hhead, rfl, ?_, hfound⟩
  simp [bracketed]

/-! ### Conversion of counts and names -/

/-- What is written for counts are the counts. -/
theorem convertFrom_counts_inv {ignoreCase : Bool}
    (h : convertFrom ignoreCase .counts cs = .ok out) :
  ∃ text rest found, '\x7d' ∉ text ∧ cs = text ++ '\x7d' :: rest
    ∧ out = text ++ '\x7d' :: found ∧ convertFrom ignoreCase .outside rest = .ok found
  := by
  induction cs generalizing out with
  | nil =>
    rw [convertFrom] at h
    cases h
  | cons c cs ih =>
    rw [convertFrom.eq_def] at h
    simp only at h
    split at h
    case isTrue hclose =>
      rw [emit, map_eq_ok_iff] at h
      obtain ⟨found, hfound, rfl⟩ := h
      exact ⟨[], cs, found, List.not_mem_nil, by rw [hclose]; rfl, rfl, eq_ok_of_unlessLazy hfound⟩
    case isFalse hclose =>
      split at h
      case isFalse => cases h
      case isTrue =>
        rw [emit, map_eq_ok_iff] at h
        obtain ⟨found, hfound, rfl⟩ := h
        obtain ⟨text, rest, found, htext, rfl, rfl, hrest⟩ := ih hfound
        refine ⟨c :: text, rest, found, ?_, rfl, rfl, hrest⟩
        rw [List.mem_cons, not_or]
        exact ⟨Ne.symm hclose, htext⟩

/-- The parenthesis of a group is written behind its name. -/
theorem convertFrom_name_inv {ignoreCase : Bool} (h : convertFrom ignoreCase .name cs = .ok out) :
  ∃ name rest found, '>' ∉ name ∧ cs = name ++ '>' :: rest ∧ out = '(' :: found
    ∧ convertFrom ignoreCase .outside rest = .ok found
  := by
  induction cs with
  | nil =>
    rw [convertFrom] at h
    cases h
  | cons c cs ih =>
    rw [convertFrom.eq_def] at h
    simp only at h
    split at h
    case isTrue hclose =>
      rw [emit, map_eq_ok_iff] at h
      obtain ⟨found, hfound, rfl⟩ := h
      exact ⟨[], cs, found, List.not_mem_nil, by rw [hclose]; rfl, rfl, hfound⟩
    case isFalse hclose =>
      obtain ⟨name, rest, found, hname, rfl, rfl, hrest⟩ := ih h
      refine ⟨c :: name, rest, found, ?_, rfl, rfl, hrest⟩
      rw [List.mem_cons, not_or]
      exact ⟨Ne.symm hclose, hname⟩

/-! ### Reading brackets -/

theorem bracketsFrom_members (hmembers : ∀ x ∈ members, IsMember x) (seen : List Member)
    (rest : List Char) :
  bracketsFrom .brackets seen (membersText members ++ ']' :: rest)
    = (seen ++ members) :: bracketsFrom .outside [] rest
  := by
  induction members generalizing seen with
  | nil =>
    rw [membersText, List.flatMap_nil, List.nil_append, bracketsFrom.eq_def]
    simp
  | cons x members ih =>
    rw [List.forall_mem_cons] at hmembers
    have hrest := ih hmembers.2 (seen ++ [x])
    obtain ⟨c, escaped⟩ := x
    cases escaped with
    | false =>
      obtain ⟨hbackslash, hclose⟩ := hmembers.1 rfl
      change bracketsFrom .brackets seen (c :: (membersText members ++ ']' :: rest)) = _
      rw [bracketsFrom.eq_def]
      simpa [hbackslash, hclose] using hrest
    | true =>
      change bracketsFrom .brackets seen ('\\' :: c :: (membersText members ++ ']' :: rest)) = _
      rw [bracketsFrom.eq_def]
      simpa using hrest

theorem bracketsFrom_openBrackets {negated : Bool} (hmembers : ∀ x ∈ members, IsMember x)
    (hhead : negated = false → members.head? ≠ some ('^', false)) (rest : List Char) :
  bracketsFrom .outside []
      ('[' :: ((if negated then ['^'] else []) ++ (membersText members ++ ']' :: rest)))
    = members :: bracketsFrom .outside [] rest
  := by
  have hbody := bracketsFrom_members hmembers [] rest
  rw [List.nil_append] at hbody
  rw [← hbody, bracketsFrom.eq_def]
  cases negated with
  | true => rfl
  | false =>
    rw [Ne, ← head?_membersText members rest] at hhead
    simp
    split
    case h_1 heq =>
      rw [heq] at hhead
      exact absurd rfl (hhead rfl)
    case h_2 => rfl

/-- Counts and names have no brackets. -/
theorem bracketsFrom_until {mode : Mode} {sign : Char} {text : List Char}
    (hmode : mode = .counts ∧ sign = '\x7d' ∨ mode = .name ∧ sign = '>') (htext : sign ∉ text)
    (rest : List Char) :
  bracketsFrom mode [] (text ++ sign :: rest) = bracketsFrom .outside [] rest
  := by
  induction text with
  | nil =>
    obtain ⟨rfl, rfl⟩ | ⟨rfl, rfl⟩ := hmode
    all_goals
      rw [List.nil_append, bracketsFrom.eq_def]
      simp
  | cons c text ih =>
    rw [List.mem_cons, not_or] at htext
    rw [← ih htext.2]
    obtain ⟨rfl, rfl⟩ | ⟨rfl, rfl⟩ := hmode
    all_goals
      rw [List.cons_append, bracketsFrom.eq_def]
      simp [Ne.symm htext.1]

theorem bracketsFrom_openCounts {text : List Char} (htext : '\x7d' ∉ text) (rest : List Char) :
  bracketsFrom .outside [] ('\x7b' :: (text ++ '\x7d' :: rest)) = bracketsFrom .outside [] rest
  := by
  have hbody := bracketsFrom_until (.inl ⟨rfl, rfl⟩) htext rest
  rw [← hbody, bracketsFrom.eq_def]
  rfl

theorem bracketsFrom_named {name : List Char} (hname : '>' ∉ name) (rest : List Char) :
  bracketsFrom .outside [] ('(' :: '?' :: '<' :: (name ++ '>' :: rest))
    = bracketsFrom .outside [] rest
  := by
  have hbody := bracketsFrom_until (.inr ⟨rfl, rfl⟩) hname rest
  rw [← hbody, bracketsFrom.eq_def]
  rfl

theorem bracketsFrom_ordinary (hc : c ∉ ['\\', '[', '(', '\x7b']) :
  bracketsFrom .outside [] (c :: rest) = bracketsFrom .outside [] rest
  := by
  simp only [List.mem_cons, List.not_mem_nil, or_false, not_or] at hc
  obtain ⟨hbackslash, hbracket, hgroup, hbrace⟩ := hc
  rw [bracketsFrom.eq_def]
  simp [hbackslash, hbracket, hgroup, hbrace]

theorem bracketsFrom_openGroup (hrest : rest.head? ≠ some '?') :
  bracketsFrom .outside [] ('(' :: rest) = bracketsFrom .outside [] rest
  := by
  rw [bracketsFrom.eq_def]
  simp
  split
  · simp at hrest
  · rfl

/-- A step that stays outside brackets comes upon none. -/
theorem Step.bracketsFrom_eq {ignoreCase : Bool} {used piece tail : List Char}
    (h : Step ignoreCase .outside used piece .outside rest) (htail : tail.head? ≠ some '?') :
  bracketsFrom .outside [] (used ++ (rest ++ tail)) = bracketsFrom .outside [] (rest ++ tail)
  := by
  cases h with
  | escape =>
    rw [List.cons_append, bracketsFrom.eq_def]
    rfl
  | uncaptured =>
    have hgroup : bracketsFrom .outside [] ('(' :: '?' :: ':' :: (rest ++ tail))
        = bracketsFrom .outside [] ('?' :: ':' :: (rest ++ tail)) := by
      rw [bracketsFrom.eq_def]
      rfl
    apply hgroup.trans
    rw [bracketsFrom_ordinary (by decide), bracketsFrom_ordinary (by decide)]
  | openGroup hrest =>
    apply bracketsFrom_openGroup
    cases rest with
    | nil => exact htail
    | cons => exact hrest
  | sign hc =>
    apply bracketsFrom_ordinary
    obtain rfl | rfl | rfl := hc <;> decide
  | closeGroup => exact bracketsFrom_ordinary (by decide)
  | bar => exact bracketsFrom_ordinary (by decide)
  | literal hc =>
    apply bracketsFrom_ordinary
    intro hsign
    apply hc
    simp only [List.mem_cons, List.not_mem_nil, or_false] at hsign
    obtain rfl | rfl | rfl | rfl := hsign <;> decide

end Sift.Pattern
