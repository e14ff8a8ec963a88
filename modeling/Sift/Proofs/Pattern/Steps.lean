import Sift.Proofs.Computation
import Sift.Proofs.Pattern.Pieces

/-!
# Steps of the conversion

The conversion goes on by one `Step` after another, each of which reads a text and writes a piece.
Before and behind a step the place in the pattern and the place in what is written are `Aligned`,
as long as the pattern is readable and plain: `Step.aligned`. `suits_of_convertFrom` is the same
for the whole conversion.
-/

namespace Sift.Pattern

/-- What one step of the conversion reads, and what it writes, before it goes on with the rest. -/
inductive Step (ignoreCase : Bool) : Mode → List Char → List Char → Mode → List Char → Prop where
  | nameChar {c : Char} {rest : List Char} : c ≠ '>' → Step ignoreCase .name [c] [] .name rest
  | nameEnd {rest : List Char} : Step ignoreCase .name ['>'] ['('] .outside rest
  | count {c : Char} {rest : List Char} : c ≠ '\x7d' → c.isDigit = true ∨ c = ',' →
    Step ignoreCase .counts [c] [c] .counts rest
  | countsEnd {rest : List Char} : Step ignoreCase .counts ['\x7d'] ['\x7d'] .outside rest
  | bracketsEnd {rest : List Char} : Step ignoreCase .brackets [']'] [']'] .outside rest
  | bracketEscape {c : Char} {piece rest : List Char} : bracketEscapePiece c = .ok piece →
    Step ignoreCase .brackets ['\\', c] piece .brackets rest
  | range {first last : Char} {rest : List Char} : first.isAlpha = true → last.isAlpha = true →
    Step ignoreCase .brackets [first, '-', last] (rangePiece ignoreCase first last) .brackets rest
  | letter {c : Char} {rest : List Char} : c.isAlpha = true →
    Step ignoreCase .brackets [c] (letterPiece ignoreCase c) .brackets rest
  | member {c : Char} {rest : List Char} : c ≠ ']' → c ≠ '\\' →
    Step ignoreCase .brackets [c] [c] .brackets rest
  | escape {c : Char} {piece rest : List Char} : escapePiece c = .ok piece →
    Step ignoreCase .outside ['\\', c] piece .outside rest
  | negatedBrackets {rest : List Char} :
    Step ignoreCase .outside ['[', '^'] ['[', '^'] .brackets rest
  | openBrackets {rest : List Char} : Step ignoreCase .outside ['['] ['['] .brackets rest
  | uncaptured {rest : List Char} : Step ignoreCase .outside ['(', '?', ':'] ['('] .outside rest
  | named {rest : List Char} : Step ignoreCase .outside ['(', '?', '<'] [] .name rest
  | openGroup {rest : List Char} : rest.head? ≠ some '?' →
    Step ignoreCase .outside ['('] ['('] .outside rest
  | sign {c : Char} {rest : List Char} : c = '*' ∨ c = '+' ∨ c = '?' →
    Step ignoreCase .outside [c] [c] .outside rest
  | openCounts {rest : List Char} : Step ignoreCase .outside ['\x7b'] ['\x7b'] .counts rest
  | closeGroup {rest : List Char} : Step ignoreCase .outside [')'] [')'] .outside rest
  | bar {rest : List Char} : Step ignoreCase .outside ['|'] ['|'] .outside rest
  | literal {c : Char} {rest : List Char} : c ∉ outsideSigns →
    Step ignoreCase .outside [c] (literalPiece ignoreCase c) .outside rest

variable {ignoreCase : Bool} {mode : Mode} {cs out : List Char}

theorem eq_ok_of_unlessLazy {behind : List Char} {rest : Except Fault (List Char)}
    (h : unlessLazy behind rest = .ok out) :
  rest = .ok out
  := by
  rw [unlessLazy] at h
  split at h
  case isTrue => cases h
  case isFalse => exact h

/-- A conversion ends outside brackets, counts and names, or it goes on by one step. -/
theorem step_of_convertFrom (h : convertFrom ignoreCase mode cs = .ok out) :
  (mode = .outside ∧ cs = [] ∧ out = [])
    ∨ ∃ used piece mode' rest found, Step ignoreCase mode used piece mode' rest
      ∧ cs = used ++ rest ∧ out = piece ++ found
      ∧ convertFrom ignoreCase mode' rest = .ok found
  := by
  have hemit {used piece rest : List Char} {mode' : Mode} (hcs : cs = used ++ rest)
      (hstep : Step ignoreCase mode used piece mode' rest)
      (hout : emit piece (convertFrom ignoreCase mode' rest) = .ok out) :
      ∃ used piece mode' rest found, Step ignoreCase mode used piece mode' rest
        ∧ cs = used ++ rest ∧ out = piece ++ found
        ∧ convertFrom ignoreCase mode' rest = .ok found := by
    rw [emit, map_eq_ok_iff] at hout
    obtain ⟨found, hfound, rfl⟩ := hout
    exact ⟨used, piece, mode', rest, found, hstep, hcs, rfl, hfound⟩
  revert h
  fun_cases convertFrom ignoreCase mode cs <;> intro h
  case case1 =>
    left
    cases mode <;> cases h
    exact ⟨rfl, rfl, rfl⟩
  case case6 | case8 | case10 | case15 | case17 | case21 | case23 | case27 => cases h
  all_goals right
  case case2 rest => exact hemit rfl .nameEnd h
  case case3 c rest hc => exact ⟨[c], [], .name, rest, out, .nameChar hc, rfl, rfl, h⟩
  case case4 rest =>
    rw [emit, map_eq_ok_iff] at h
    obtain ⟨found, hfound, rfl⟩ := h
    exact ⟨_, _, _, _, found, .countsEnd, rfl, rfl, eq_ok_of_unlessLazy hfound⟩
  case case5 c rest hclose hc => exact hemit rfl (.count hclose hc) h
  case case7 rest => exact hemit rfl .bracketsEnd h
  case case9 c rest piece hpiece _ => exact hemit rfl (.bracketEscape hpiece) h
  case case11 c _ _ hc last behind hlast => exact hemit rfl (.range hc hlast) h
  case case12 c _ _ hc last behind _ => exact hemit rfl (.letter hc) h
  case case13 c _ _ hc rest _ => exact hemit rfl (.letter hc) h
  case case14 c rest hclose hbackslash _ => exact hemit rfl (.member hclose hbackslash) h
  case case16 c rest piece hpiece => exact hemit rfl (.escape hpiece) h
  case case18 rest => exact hemit rfl .negatedBrackets h
  case case19 rest _ => exact hemit rfl .openBrackets h
  case case20 rest => exact hemit rfl .uncaptured h
  case case22 behind _ _ _ => exact ⟨_, [], .name, behind, out, .named, rfl, rfl, h⟩
  case case24 rest _ _ hrest _ _ =>
    have hrest : rest.head? ≠ some '?' := by
      rw [Ne, List.head?_eq_some_iff]
      rintro ⟨behind, rfl⟩
      exact hrest behind rfl
    exact hemit rfl (.openGroup hrest) h
  case case25 c rest _ _ _ hc =>
    rw [emit, map_eq_ok_iff] at h
    obtain ⟨found, hfound, rfl⟩ := h
    exact ⟨_, _, _, _, found, .sign hc, rfl, rfl, eq_ok_of_unlessLazy hfound⟩
  case case26 rest _ _ _ _ => exact hemit rfl .openCounts h
  case case28 c rest hbackslash hbracket hgroup hsign hbrace hanchor =>
    rw [not_or] at hanchor
    simp only [not_or] at hsign
    by_cases hclose : c = ')'
    case pos =>
      subst hclose
      exact hemit rfl .closeGroup h
    by_cases hbar : c = '|'
    case pos =>
      subst hbar
      exact hemit rfl .bar h
    apply hemit rfl (.literal _) h
    simp [outsideSigns, backedSigns, quantifierSigns, anchorSigns, hbackslash, hbracket, hgroup,
      hclose, hbar, hsign, hbrace, hanchor]

/-! ### Places that belong together -/

/-- A place in a pattern and the place in what is written for it belong together in a mode, if
`rest` is what follows in the pattern. -/
inductive Aligned : Mode → Scan → Scan → List Char → Prop where
  /-- What could be repeated in the pattern can be repeated in what is written. A question mark that
  says what kind of group it is has been read together with the parenthesis. -/
  | outside {s t : Scan} {rest : List Char} : s.isOutside = true → t.isOutside = true →
    t.depth = s.depth → (s.repeatable = true → t.repeatable = true ∧ t.spot = .outside) →
    (s.spot = .group → rest.head? ≠ some '?') → Aligned .outside s t rest
  | brackets {s : Scan} {rest : List Char} : s.spot.isInside = true → Aligned .brackets s s rest
  | counts {depth : Nat} {rest : List Char} :
    Aligned .counts ⟨.counts, depth, true⟩ ⟨.counts, depth, true⟩ rest
  /-- The parenthesis of a group is written behind its name. -/
  | name {s t : Scan} {rest : List Char} : s.spot = .name → t.isOutside = true →
    s.depth = t.depth + 1 → Aligned .name s t rest

namespace Aligned

variable {rest : List Char}

/-- In front of an alternative, where a wildcard may have been written. -/
theorem start (depth : Nat) (repeatable : Bool) :
  Aligned .outside ⟨.outside, depth, false⟩ ⟨.outside, depth, repeatable⟩ rest
  := .outside rfl rfl rfl (fun h => by cases h) (fun h => by cases h)

/-- Behind what may be repeated. -/
theorem behind (depth : Nat) :
  Aligned .outside ⟨.outside, depth, true⟩ ⟨.outside, depth, true⟩ rest
  := .outside rfl rfl rfl (fun _ => ⟨rfl, rfl⟩) (fun h => by cases h)

/-- Behind the parenthesis that opens a group. -/
theorem opened {spot : Spot} (depth : Nat) (hspot : spot.isOutside = true)
    (hrest : spot = .group → rest.head? ≠ some '?') :
  Aligned .outside ⟨spot, depth, false⟩ ⟨.group, depth, false⟩ rest
  := .outside hspot rfl rfl (fun h => by cases h) hrest

theorem inv {s t : Scan} {c : Char} (h : Aligned .outside s t (c :: rest)) :
  t.isOutside = true ∧ t.depth = s.depth
    ∧ (s.repeatable = true → t.repeatable = true ∧ t.spot = .outside)
    ∧ s.next c = Scan.nextOutside s.depth c ∧ s.isReadable c = s.isBacked c
  := by
  cases h with | outside hs ht hdepth hrepeatable hgroup =>
  have hc : s.spot = .group → c ≠ '?' := by
    rintro hspot rfl
    apply hgroup hspot rfl
  exact ⟨ht, hdepth, hrepeatable, Scan.next_of_isOutside hs hc,
    Scan.isReadable_of_isOutside hs hc⟩

variable {mode : Mode} {s t : Scan} {c : Char} {next : List Char}

/-- What needs nothing in front of it is written as it is. -/
theorem unbacked (h : Aligned .outside s t (c :: next)) (hc : c ∉ backedSigns ++ anchorSigns)
    (hbehind : ∀ depth, Aligned mode (Scan.nextOutside depth c) (Scan.nextOutside depth c) rest) :
  ∃ t', Suits t [c] t' ∧ Aligned mode (s.after [c]) t' rest
  := by
  obtain ⟨ht, hdepth, -, hnext, -⟩ := h.inv
  refine ⟨_, Suits.unbacked ht hc, ?_⟩
  rw [Scan.after_cons, Scan.after_nil, hnext, hdepth]
  apply hbehind

/-- A quantifier repeats in what is written what it repeats in the pattern. -/
theorem quantifier (h : Aligned .outside s t (c :: next))
    (hreadable : s.passes Scan.isReadable [c] = true) (hc : c ∈ quantifierSigns)
    (hbehind : ∀ depth, Aligned mode (Scan.nextOutside depth c) (Scan.nextOutside depth c) rest) :
  ∃ t', Suits t [c] t' ∧ Aligned mode (s.after [c]) t' rest
  := by
  obtain ⟨-, hdepth, hrepeatable, hnext, hbacked⟩ := h.inv
  rw [Scan.passes_cons, hbacked] at hreadable
  obtain ⟨hfront, hspot⟩ := hrepeatable (Scan.repeatable_of_isBacked hreadable.1 hc)
  refine ⟨_, Suits.quantifier hspot hfront hc, ?_⟩
  rw [Scan.after_cons, Scan.after_nil, hnext, hdepth]
  apply hbehind

end Aligned

/-! ### One step -/

section

variable {mode' : Mode} {used piece rest : List Char} {s t : Scan}

theorem Step.aligned_name (hstep : Step ignoreCase .name used piece mode' rest)
    (h : Aligned .name s t (used ++ rest)) :
  ∃ t', Suits t piece t' ∧ Aligned mode' (s.after used) t' rest
  := by
  cases h with | name hs ht hdepth =>
  cases hstep with
  | nameChar hc =>
    refine ⟨t, Suits.nil, .name ?_ ht ?_⟩
    all_goals simp [Scan.next, hs, hc, hdepth]
  | nameEnd =>
    have hafter : s.after ['>'] = ⟨.outside, t.depth + 1, false⟩ := by
      simp [Scan.next, hs, hdepth]
    rw [hafter]
    refine ⟨_, Suits.unbacked ht (by decide), .opened _ rfl ?_⟩
    intro hspot
    cases hspot

theorem Step.aligned_counts (hstep : Step ignoreCase .counts used piece mode' rest)
    (h : Aligned .counts s t (used ++ rest)) :
  ∃ t', Suits t piece t' ∧ Aligned mode' (s.after used) t' rest
  := by
  cases h with | counts =>
  cases hstep with
  | count hclose hc =>
    refine ⟨_, Suits.single ?_ rfl, ?_⟩
    · simp only [Scan.suits, Bool.or_eq_true, decide_eq_true_eq]
      exact Or.inl hc
    · simp only [Scan.after_cons, Scan.after_nil, Scan.next, if_neg hclose]
      exact .counts
  | countsEnd => exact ⟨_, Suits.single rfl rfl, .behind _⟩

/-- In brackets the place in the pattern and the one in what is written are the same. -/
theorem Step.aligned_brackets (hstep : Step ignoreCase .brackets used piece mode' rest)
    (h : Aligned .brackets s t (used ++ rest)) (hreadable : s.passes Scan.isReadable used = true)
    (hplain : s.passes Scan.isPlain used = true) :
  ∃ t', Suits t piece t' ∧ Aligned mode' (s.after used) t' rest
  := by
  cases h with | brackets hs =>
  have hmembers {cs : List Char} (hne : cs ≠ []) (hcs : ∀ c ∈ cs, c ∉ insideSigns) :
      Aligned .brackets (s.after cs) ⟨.brackets, s.depth, true⟩ rest := by
    rw [(Suits.members hs hne hcs).2]
    exact .brackets rfl
  cases hstep with
  | bracketsEnd =>
    obtain ⟨spot, depth, repeatable⟩ := s
    cases spot with
    | brackets => exact ⟨_, Suits.single rfl rfl, .behind _⟩
    | bracketStart | bracketFirst => cases (Scan.passes_cons.mp hplain).1
    | _ => cases hs
  | bracketEscape hpiece =>
    have hnext : s.next '\\' = ⟨.bracketEscape, s.depth, true⟩ := by
      rw [Scan.next_of_isInside hs (by decide)]
      rfl
    rw [Scan.passes_cons, hnext, Scan.passes_cons] at hreadable
    refine ⟨_, suits_bracketEscapePiece hpiece (of_decide_eq_true hreadable.2.1) hs, ?_⟩
    rw [Scan.after_cons, hnext]
    exact .brackets rfl
  | range hfirst hlast =>
    refine ⟨_, suits_rangePiece hfirst hlast hs, hmembers (List.cons_ne_nil _ _) ?_⟩
    have hdash : '-' ∉ insideSigns := by decide
    simp [(not_mem_insideSigns hfirst).1, hdash, (not_mem_insideSigns hlast).1]
  | letter hc =>
    refine ⟨_, suits_letterPiece hc hs, hmembers (List.cons_ne_nil _ _) ?_⟩
    rw [List.forall_mem_singleton]
    exact (not_mem_insideSigns hc).1
  | member hclose hbackslash =>
    refine ⟨_, Suits.single (Scan.suits_of_isInside hs hclose) rfl, .brackets ?_⟩
    exact (Scan.isInside_next hs hclose hbackslash).1

/-- Outside brackets a place in what is written is at the same depth. -/
theorem Step.aligned_outside (hstep : Step ignoreCase .outside used piece mode' rest)
    (h : Aligned .outside s t (used ++ rest)) (hreadable : s.passes Scan.isReadable used = true) :
  ∃ t', Suits t piece t' ∧ Aligned mode' (s.after used) t' rest
  := by
  cases hstep with
  | escape hpiece =>
    obtain ⟨ht, hdepth, -, hnext, -⟩ := h.inv
    rw [Scan.passes_cons, hnext, Scan.passes_cons] at hreadable
    refine ⟨_, suits_escapePiece hpiece (of_decide_eq_true hreadable.2.1) ht, ?_⟩
    rw [Scan.after_cons, hnext, hdepth]
    exact .behind s.depth
  | negatedBrackets =>
    obtain ⟨ht, hdepth, -, hnext, -⟩ := h.inv
    refine ⟨_, (Suits.unbacked ht (by decide)).cons (Suits.single rfl rfl), ?_⟩
    rw [Scan.after_cons, hnext, hdepth]
    exact .brackets rfl
  | openBrackets => exact h.unbacked (by decide) fun _ => .brackets rfl
  | uncaptured =>
    obtain ⟨ht, hdepth, -, hnext, -⟩ := h.inv
    refine ⟨_, Suits.unbacked ht (by decide), ?_⟩
    rw [Scan.after_cons, hnext, hdepth]
    exact .opened _ rfl (fun h => by cases h)
  | named =>
    obtain ⟨ht, hdepth, -, hnext, -⟩ := h.inv
    refine ⟨_, Suits.nil, ?_⟩
    rw [Scan.after_cons, hnext]
    exact .name rfl ht (by rw [hdepth]; rfl)
  | openGroup hrest => exact h.unbacked (by decide) fun _ => .opened _ rfl fun _ => hrest
  | sign hc =>
    apply h.quantifier hreadable
    · obtain rfl | rfl | rfl := hc <;> decide
    · obtain rfl | rfl | rfl := hc <;> exact .behind
  | openCounts => exact h.quantifier hreadable (by decide) fun _ => .counts
  | closeGroup =>
    obtain ⟨ht, hdepth, -, hnext, hbacked⟩ := h.inv
    rw [Scan.passes_cons, hbacked] at hreadable
    have hopen : 0 < t.depth := by
      rw [hdepth]
      exact Scan.depth_of_isBacked hreadable.1
    refine ⟨_, Suits.closeGroup ht hopen, ?_⟩
    rw [Scan.after_cons, hnext, hdepth]
    exact .behind (s.depth - 1)
  | bar => exact h.unbacked (by decide) fun depth => .start depth false
  | literal hc =>
    obtain ⟨ht, hdepth, -, hnext, -⟩ := h.inv
    refine ⟨_, suits_literalPiece ht hc, ?_⟩
    rw [Scan.after_cons, hnext, hdepth, Scan.nextOutside_of_not_mem hc]
    exact .behind s.depth

/-- A step keeps the places aligned. -/
theorem Step.aligned (hstep : Step ignoreCase mode used piece mode' rest)
    (h : Aligned mode s t (used ++ rest))
    (hreadable : s.passes Scan.isReadable used = true)
    (hplain : s.passes Scan.isPlain used = true) :
  ∃ t', Suits t piece t' ∧ Aligned mode' (s.after used) t' rest
  := by
  cases mode with
  | outside => exact hstep.aligned_outside h hreadable
  | brackets => exact hstep.aligned_brackets h hreadable hplain
  | counts => exact hstep.aligned_counts h
  | name => exact hstep.aligned_name h

theorem Step.used_ne_nil (hstep : Step ignoreCase mode used piece mode' rest) :
  used ≠ []
  := by
  cases hstep <;> exact List.cons_ne_nil _ _

end

/-! ### All steps -/

/-- What is written for a readable text suits its place, and the places behind both belong
together. -/
theorem suits_of_convertFrom {s t : Scan} (h : convertFrom ignoreCase mode cs = .ok out)
    (haligned : Aligned mode s t cs) (hreadable : s.passes Scan.isReadable cs = true)
    (hplain : s.passes Scan.isPlain cs = true) :
  ∃ t', Suits t out t' ∧ Aligned .outside (s.after cs) t' []
  := by
  induction hlength : cs.length using Nat.strongRecOn generalizing mode cs out s t with
  | ind n ih =>
    obtain ⟨rfl, rfl, rfl⟩ | ⟨used, piece, mode', rest, found, hstep, rfl, rfl, hrest⟩ :=
      step_of_convertFrom h
    case inl => exact ⟨t, Suits.nil, haligned⟩
    case inr =>
      rw [Scan.passes_append] at hreadable hplain
      obtain ⟨t', hpiece, haligned'⟩ := hstep.aligned haligned hreadable.1 hplain.1
      have hshorter : rest.length < n := by
        rw [← hlength, List.length_append]
        exact Nat.lt_add_of_pos_left (List.length_pos_of_ne_nil hstep.used_ne_nil)
      obtain ⟨t'', hfound, haligned''⟩ :=
        ih rest.length hshorter hrest haligned' hreadable.2 hplain.2 rfl
      rw [Scan.after_append]
      exact ⟨t'', hpiece.append hfound, haligned''⟩

end Sift.Pattern
