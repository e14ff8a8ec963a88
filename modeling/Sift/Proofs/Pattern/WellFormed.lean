import Sift.Proofs.Pattern.Conversion
import Sift.Proofs.Pattern.Readable
import Sift.Proofs.Pattern.Steps
import Sift.Proofs.Syntax.Layout

/-!
# What is sent to the engine

What the conversion gives is `WellFormed` for the engine: `wellFormed_of_toEngine`. The check of
syntax looks at the whole pattern and the conversion at one alternative without its anchors, so two
things are asked of a pattern. No quantifier stands behind the circumflex of an alternative, where
the conversion would leave it with nothing to repeat; and bracket expressions end at the first
closing bracket, where the conversion takes them to end.
-/

namespace Sift.Pattern

variable {ignoreCase : Bool} {cs out : List Char}

/-! ### One alternative -/

/-- Whether a quantifier stands behind a circumflex at the beginning. -/
def repeatsAnchor : List Char → Bool
  | '^' :: c :: _ => quantifierSigns.contains c
  | _ => false

theorem dropLast_of_endsWithAnchor (h : endsWithAnchor cs = true) :
  cs = cs.dropLast ++ ['$']
  := by
  obtain rfl | ⟨before, c, rfl⟩ := cs.eq_nil_or_concat
  case inl => cases h
  case inr =>
    rw [List.concat_eq_append, Regex.endsWithAnchor_concat, Bool.and_eq_true] at h
    rw [List.concat_eq_append, List.dropLast_concat, of_decide_eq_true h.1]

/-- An alternative is a body between its anchors, and what is written is the body between wildcards
where there is no anchor, or a single wildcard. -/
theorem convertAlternative_inv (h : convertAlternative ignoreCase cs = .ok out) :
  ∃ atStart atEnd body converted, convertFrom ignoreCase .outside body = .ok converted
    ∧ cs = (if atStart then ['^'] else []) ++ body ++ (if atEnd then ['$'] else [])
    ∧ (out = (if atStart then [] else anyRun) ++ converted ++ (if atEnd then [] else anyRun)
      ∨ atStart = false ∧ atEnd = false ∧ converted = [] ∧ out = anyRun)
  := by
  rw [convertAlternative] at h
  obtain ⟨converted, hconverted, h⟩ := bind_eq_ok_iff.mp h
  refine ⟨cs.head? = some '^', endsWithAnchor cs, _, converted, hconverted, ?_, ?_⟩
  · by_cases hstart : cs.head? = some '^'
    case pos =>
      obtain ⟨rest, rfl⟩ := List.head?_eq_some_iff.mp hstart
      by_cases hend : endsWithAnchor ('^' :: rest) = true
      case pos =>
        have hbody := dropLast_of_endsWithAnchor hend
        cases rest with
        | nil => cases hbody
        | cons c rest => simpa [hend] using hbody
      case neg => simp [hend]
    case neg =>
      by_cases hend : endsWithAnchor cs = true
      case pos => simpa [hstart, hend] using dropLast_of_endsWithAnchor hend
      case neg => simp [hstart, hend]
  · split at h
    case isTrue hempty =>
      cases h
      simp only [Bool.and_eq_true, List.isEmpty_iff, Bool.not_eq_true'] at hempty
      obtain ⟨⟨hconverted, hstart⟩, hend⟩ := hempty
      exact Or.inr ⟨hstart, hend, hconverted, rfl⟩
    case isFalse =>
      cases h
      left
      simp

/-- Two places with the same number of open groups, and nothing else open at either. -/
structure Level (s t : Scan) : Prop where
  left : s.isOutside = true
  right : t.isOutside = true
  depth_eq : t.depth = s.depth

namespace Level

variable {s t : Scan}

/-- A dollar sign at the end of an alternative opens and closes nothing. -/
theorem anchored (h : Level s t) (atEnd : Bool) :
  Level (s.after (if atEnd then ['$'] else [])) t
  := by
  cases atEnd with
  | false => exact h
  | true =>
    have hnext : s.next '$' = ⟨.outside, s.depth, true⟩ :=
      Scan.next_of_isOutside h.left fun _ => by decide
    rw [if_pos rfl, Scan.after_cons, hnext]
    exact ⟨rfl, h.right, h.depth_eq⟩

/-- Whether there is something in front of a text does not matter behind it. -/
theorem of_repeatable {depth : Nat} {repeatable : Bool}
    (h : Level (Scan.after ⟨.outside, depth, repeatable⟩ cs) t) (repeatable' : Bool) :
  Level (Scan.after ⟨.outside, depth, repeatable'⟩ cs) t
  := by
  cases cs <;> exact ⟨h.left, h.right, h.depth_eq⟩

/-- Behind a bar both places are in front of an alternative. -/
theorem bar (h : Level s t) :
  s.next '|' = ⟨.outside, s.depth, false⟩ ∧ Suits t ['|'] ⟨.outside, s.depth, false⟩
  := by
  constructor
  · exact Scan.next_of_isOutside h.left fun _ => by decide
  · rw [← h.depth_eq]
    exact Suits.unbacked h.right (by decide)

end Level

/-- Nothing but a quantifier needs something in front of it. -/
theorem passes_isReadable_repeatable {depth : Nat} {repeatable : Bool}
    (hcs : ∀ c ∈ cs.head?, c ∉ quantifierSigns)
    (h : Scan.passes Scan.isReadable ⟨.outside, depth, repeatable⟩ cs = true)
    (repeatable' : Bool) :
  Scan.passes Scan.isReadable ⟨.outside, depth, repeatable'⟩ cs = true
  := by
  cases cs with
  | nil => rfl
  | cons c rest =>
    rw [Scan.passes_cons] at h ⊢
    refine ⟨?_, h.2⟩
    have hc : quantifierSigns.contains c = false := by
      rw [Bool.eq_false_iff, Ne, List.contains_iff_mem]
      apply hcs c rfl
    have hbacked : Scan.isBacked ⟨.outside, depth, repeatable⟩ c = true := h.1
    change Scan.isBacked ⟨.outside, depth, repeatable'⟩ c = true
    rw [Scan.isBacked, hc] at hbacked ⊢
    exact hbacked

theorem passes_isPlain_repeatable {depth : Nat} (repeatable repeatable' : Bool) :
  Scan.passes Scan.isPlain ⟨.outside, depth, repeatable⟩ cs
    = Scan.passes Scan.isPlain ⟨.outside, depth, repeatable'⟩ cs
  := by
  cases cs <;> rfl

/-- What is written for an alternative suits its place. -/
theorem suits_convertAlternative {depth : Nat} (h : convertAlternative ignoreCase cs = .ok out)
    (hanchor : repeatsAnchor cs = false)
    (hreadable : Scan.passes Scan.isReadable ⟨.outside, depth, false⟩ cs = true)
    (hplain : Scan.passes Scan.isPlain ⟨.outside, depth, false⟩ cs = true) :
  ∃ t, Suits ⟨.outside, depth, false⟩ out t ∧ Level (Scan.after ⟨.outside, depth, false⟩ cs) t
  := by
  obtain ⟨atStart, atEnd, body, converted, hconverted, rfl, hout⟩ := convertAlternative_inv h
  have hstart : Scan.after ⟨.outside, depth, false⟩ (if atStart then ['^'] else [])
      = ⟨.outside, depth, atStart⟩ := by
    cases atStart <;> rfl
  rw [Scan.passes_append, Scan.passes_append, hstart] at hreadable hplain
  rw [passes_isPlain_repeatable atStart false] at hplain
  have hbody : Scan.passes Scan.isReadable ⟨.outside, depth, false⟩ body = true := by
    cases atStart with
    | false => exact hreadable.1.2
    | true =>
      apply passes_isReadable_repeatable _ hreadable.1.2
      intro c hc hsign
      obtain ⟨rest, rfl⟩ := List.head?_eq_some_iff.mp hc
      have hrepeats : quantifierSigns.contains c = false := hanchor
      rw [List.contains_iff_mem.mpr hsign] at hrepeats
      cases hrepeats
  obtain ⟨t, hsuits, haligned⟩ :=
    suits_of_convertFrom hconverted (Aligned.start depth !atStart) hbody hplain.1.2
  have hlevel : Level (Scan.after ⟨.outside, depth, false⟩ body) t := by
    cases haligned with | outside hs ht hdepth _ _ => exact ⟨hs, ht, hdepth⟩
  have hbehind := (hlevel.of_repeatable atStart).anchored atEnd
  rw [Scan.after_append, Scan.after_append, hstart]
  obtain rfl | ⟨rfl, rfl, rfl, rfl⟩ := hout
  case inl =>
    have hfront : Suits ⟨.outside, depth, false⟩ (if atStart then [] else anyRun)
        ⟨.outside, depth, !atStart⟩ := by
      cases atStart with
      | false => exact Suits.anyRun rfl
      | true => exact Suits.nil
    cases atEnd with
    | false =>
      refine ⟨_, (hfront.append hsuits).append (Suits.anyRun hlevel.right), ?_⟩
      exact ⟨hbehind.left, rfl, hbehind.depth_eq⟩
    | true => exact ⟨t, (hfront.append hsuits).append Suits.nil, hbehind⟩
  case inr =>
    obtain ⟨-, rfl⟩ := hsuits
    exact ⟨_, Suits.anyRun rfl, hbehind⟩

/-! ### All alternatives -/

theorem flatMap_alternativesFrom (depth : Nat) (inBrackets : Bool) (cs : List Char) :
  (alternativesFrom depth inBrackets cs).1
    ++ (alternativesFrom depth inBrackets cs).2.flatMap (['|'] ++ ·) = cs
  := by
  fun_induction alternativesFrom depth inBrackets cs
  case case5 hbar found ih =>
    rw [hbar.1]
    exact congrArg ('|' :: ·) ih
  all_goals simp_all [consFirst]

/-- A pattern is its alternatives with bars between them. -/
theorem intercalate_alternatives (cs : List Char) :
  ['|'].intercalate (alternatives cs) = cs
  := by
  rw [alternatives, Syntax.intercalate_cons]
  apply flatMap_alternativesFrom

theorem suits_alternatives {texts pieces : List (List Char)} {depth : Nat}
    (h : List.Forall₂ (fun text piece => convertAlternative ignoreCase text = .ok piece) texts
      pieces)
    (hne : texts ≠ []) (hanchors : ∀ text ∈ texts, repeatsAnchor text = false)
    (hreadable :
      Scan.passes Scan.isReadable ⟨.outside, depth, false⟩ (['|'].intercalate texts) = true)
    (hplain : Scan.passes Scan.isPlain ⟨.outside, depth, false⟩ (['|'].intercalate texts) = true) :
  ∃ t, Suits ⟨.outside, depth, false⟩ (['|'].intercalate pieces) t
    ∧ Level (Scan.after ⟨.outside, depth, false⟩ (['|'].intercalate texts)) t
  := by
  induction h generalizing depth with
  | nil => cases hne rfl
  | cons hpiece hrest ih =>
    rw [List.forall_mem_cons] at hanchors
    cases hrest with
    | nil =>
      rw [List.intercalate_singleton] at hreadable hplain
      rw [List.intercalate_singleton, List.intercalate_singleton]
      apply suits_convertAlternative hpiece hanchors.1 hreadable hplain
    | cons =>
      rw [List.intercalate_cons_cons, List.append_assoc, Scan.passes_append, List.singleton_append,
        Scan.passes_cons] at hreadable hplain
      obtain ⟨t, hfirst, hlevel⟩ :=
        suits_convertAlternative hpiece hanchors.1 hreadable.1 hplain.1
      obtain ⟨hnext, hbar⟩ := hlevel.bar
      rw [hnext] at hreadable hplain
      obtain ⟨t', hothers, hlevel'⟩ :=
        ih (List.cons_ne_nil _ _) hanchors.2 hreadable.2.2 hplain.2.2
      rw [List.intercalate_cons_cons, List.intercalate_cons_cons, List.append_assoc,
        List.append_assoc, List.singleton_append, List.singleton_append, Scan.after_append,
        Scan.after_cons, hnext]
      exact ⟨t', hfirst.append (hbar.cons hothers), hlevel'⟩

/-- What is sent to the engine is well formed, if no quantifier stands behind the circumflex of an
alternative, and there are neither brackets in brackets nor a closing one right behind the opening
one. -/
theorem wellFormed_of_toEngine {pattern engine : String}
    (h : toEngine pattern ignoreCase = .ok engine)
    (hanchors : ∀ text ∈ alternatives pattern.toList, repeatsAnchor text = false)
    (hplain : Scan.passes Scan.isPlain {} pattern.toList = true) :
  WellFormed engine.toList
  := by
  obtain ⟨pieces, hpieces, hcheck, hengine⟩ := toEngine_inv h
  obtain ⟨hreadable, -, hdepth⟩ := finishes_of_check hcheck hplain
  rw [← intercalate_alternatives pattern.toList] at hplain hreadable hdepth
  obtain ⟨t, ⟨hpasses, rfl⟩, hlevel⟩ :=
    suits_alternatives hpieces (List.cons_ne_nil _ _) hanchors hreadable hplain
  rw [hengine]
  exact ⟨hpasses, hlevel.right, hlevel.depth_eq.trans hdepth⟩

/-- Anchors, a named group, classes, counts and an escaped slash. -/
theorem wellFormed_wordsOrPath :
  toEngine "^(?<n>[a-c_]+)\\d\x7b2,\x7d|\\/x?$" true
      = .ok "([a-cA-C_]+)[0-9]\x7b2,\x7d.*|.*/[xX]?"
    ∧ (∀ text ∈ alternatives "^(?<n>[a-c_]+)\\d\x7b2,\x7d|\\/x?$".toList,
      repeatsAnchor text = false)
    ∧ Scan.passes Scan.isPlain {} "^(?<n>[a-c_]+)\\d\x7b2,\x7d|\\/x?$".toList = true
    ∧ WellFormed "([a-cA-C_]+)[0-9]\x7b2,\x7d.*|.*/[xX]?".toList
  := by
  have h : toEngine "^(?<n>[a-c_]+)\\d\x7b2,\x7d|\\/x?$" true
      = .ok "([a-cA-C_]+)[0-9]\x7b2,\x7d.*|.*/[xX]?" := by
    decide +kernel
  have hanchors : ∀ text ∈ alternatives "^(?<n>[a-c_]+)\\d\x7b2,\x7d|\\/x?$".toList,
      repeatsAnchor text = false := by
    decide +kernel
  have hplain : Scan.passes Scan.isPlain {} "^(?<n>[a-c_]+)\\d\x7b2,\x7d|\\/x?$".toList = true := by
    decide +kernel
  exact ⟨h, hanchors, hplain, wellFormed_of_toEngine h hanchors hplain⟩

/-- A circumflex may be repeated in a regular expression, and only the circumflex is left out. -/
theorem toEngine_repeatedAnchor :
  toEngine "^*a" false = .ok "*a.*" ∧ ¬ WellFormed "*a.*".toList
  := by
  decide +kernel

/-- A class in a class and a closing bracket that is a member of one are not what the conversion
takes them for. -/
theorem toEngine_brackets :
  (toEngine "[[a](]" false = .ok ".*[[a](].*" ∧ ¬ WellFormed ".*[[a](].*".toList)
    ∧ toEngine "[]a]" false = .ok ".*[]a].*" ∧ ¬ WellFormed ".*[]a].*".toList
  := by
  decide +kernel

end Sift.Pattern
