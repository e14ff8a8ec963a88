import Mathlib.Data.List.Forall2
import Mathlib.Tactic.Use
import Sift.Proofs.Syntax.Layout

/-!
# Rules for readers

`Reads reader cs post` says that a reader reads the beginning of `cs` in such a way that what it
finds and what is left meet `post`, wherever `cs` stands and whatever was looked for before.
`Refuses` says that it reads nothing, and `Finds` what holds of everything it ever reads. There is
a rule for each way of making readers; `Reads.separated` is the one for operands with signs
between them.
-/

namespace Sift.Syntax

namespace Reader

variable {α β : Type}

/-- Whether a reader reads the beginning of a text, wherever it stands, in such a way that what
it finds and what is left meet a condition. -/
def Reads (reader : Reader α) (cs : List Char) (post : α → List Char → Prop) : Prop :=
  ∀ offset trace, ∃ a cursor after,
    reader ⟨offset, cs⟩ trace = (some (a, cursor), after) ∧ post a cursor.rest

/-- Whether a reader finds nothing at the beginning of a text, wherever it stands. -/
def Refuses (reader : Reader α) (cs : List Char) : Prop :=
  ∀ offset trace, ∃ after, reader ⟨offset, cs⟩ trace = (none, after)

/-- Whether all that a reader ever finds meets a condition. -/
structure Finds (reader : Reader α) (good : α → Prop) : Prop where
  holds {cursor : Cursor} {trace : Trace} {a : α} {behind : Cursor} {after : Trace}
    (h : reader cursor trace = (some (a, behind), after)) : good a

/-! ### Reading -/

namespace Reads

variable {x y : Reader α} {f : α → Reader β} {cs : List Char} {post : α → List Char → Prop}
  {goal : β → List Char → Prop}

theorem mono {weaker : α → List Char → Prop} (h : Reads x cs post)
    (hweaker : ∀ a rest, post a rest → weaker a rest) :
  Reads x cs weaker
  := by
  intro offset trace
  obtain ⟨a, cursor, after, hx, hpost⟩ := h offset trace
  exact ⟨a, cursor, after, hx, hweaker a _ hpost⟩

theorem pure {a : α} (h : post a cs) :
  Reads (Pure.pure a) cs post
  := by
  intro offset trace
  exact ⟨a, ⟨offset, cs⟩, trace, rfl, h⟩

theorem bind (h : Reads x cs post) (hf : ∀ a rest, post a rest → Reads (f a) rest goal) :
  Reads (x >>= f) cs goal
  := by
  intro offset trace
  obtain ⟨a, ⟨offset', rest⟩, after, hx, hpost⟩ := h offset trace
  obtain ⟨b, cursor, after', hb, hgoal⟩ := hf a rest hpost offset' after
  use b, cursor, after'
  refine ⟨?_, hgoal⟩
  change andThen x f _ _ = _
  simp only [andThen, hx, hb]

theorem map {g : α → β} (h : Reads x cs fun a rest => goal (g a) rest) :
  Reads (g <$> x) cs goal
  := bind h fun _ _ hpost => pure hpost

theorem map_eq {g : α → β} {a : α} {rest : List Char}
    (h : Reads x cs fun found behind => found = a ∧ behind = rest) :
  Reads (g <$> x) cs fun found behind => found = g a ∧ behind = rest
  := by
  apply map
  apply h.mono
  rintro _ _ ⟨rfl, rfl⟩
  exact ⟨rfl, rfl⟩

theorem or_left (h : Reads x cs post) :
  Reads (x.or y) cs post
  := by
  intro offset trace
  obtain ⟨a, cursor, after, hx, hpost⟩ := h offset trace
  use a, cursor, after
  exact ⟨by simp only [Reader.or, hx], hpost⟩

theorem or_right (hx : Refuses x cs) (h : Reads y cs post) :
  Reads (x.or y) cs post
  := by
  intro offset trace
  obtain ⟨between, hx⟩ := hx offset trace
  obtain ⟨a, cursor, after, hy, hpost⟩ := h offset between
  use a, cursor, after
  exact ⟨by simp only [Reader.or, hx, hy], hpost⟩

theorem construct {kind : Construct} (h : Reads x cs post) :
  Reads (construct kind x) cs post
  := by
  intro offset trace
  obtain ⟨a, cursor, after, hx, hpost⟩ := h offset trace
  use a, cursor, after
  exact ⟨by simp only [Reader.construct, hx], hpost⟩

theorem optional_some {goal : Option α → List Char → Prop}
    (h : Reads x cs fun a rest => goal (some a) rest) :
  Reads (optional x) cs goal
  := or_left (map h)

theorem layout {post : Unit → List Char → Prop} (h : post () (afterLayout cs)) :
  Reads layout cs post
  := by
  intro offset trace
  exact ⟨(), _, trace, rfl, h⟩

theorem layout_bind {f : Unit → Reader β} (h : Reads (f ()) (afterLayout cs) goal) :
  Reads (Reader.layout >>= f) cs goal
  := by
  have hlayout : Reads Reader.layout cs fun _ rest => rest = afterLayout cs := layout rfl
  apply bind hlayout
  rintro _ _ rfl
  exact h

theorem place {post : Nat → List Char → Prop} (h : ∀ offset, post offset cs) :
  Reads place cs post
  := by
  intro offset trace
  exact ⟨offset, ⟨offset, cs⟩, trace, rfl, h offset⟩

theorem lexeme {find : List Char → Option (Lexeme α)} {found : Lexeme α}
    (hfind : find cs = some found) (h : post found.value found.rest) :
  Reads (lexeme find) cs post
  := by
  intro offset trace
  use found.value, Cursor.advance ⟨offset, cs⟩ found.text found.rest, trace
  exact ⟨by simp only [Reader.lexeme, hfind], h⟩

theorem sign {c : Char} {post : Unit → List Char → Prop} (h : post () cs) :
  Reads (sign c) (c :: cs) post
  := by
  intro offset trace
  use (), Cursor.advance ⟨offset, c :: cs⟩ [c] cs, trace
  exact ⟨by simp only [Reader.sign, Reader.lexeme, if_true], h⟩

theorem sign_bind {c : Char} {f : Unit → Reader β} (h : Reads (f ()) cs goal) :
  Reads (Reader.sign c >>= f) (c :: cs) goal
  := by
  have hsign : Reads (Reader.sign c) (c :: cs) fun _ rest => rest = cs := sign rfl
  apply bind hsign
  rintro _ _ rfl
  exact h

theorem before {signs : List Char} {post : Unit → List Char → Prop}
    (hsigns : cs.head?.any signs.contains = true) (h : post () cs) :
  Reads (before signs) cs post
  := by
  intro offset trace
  use (), ⟨offset, cs⟩, trace
  exact ⟨by simp only [Reader.before, hsigns, if_true], h⟩

theorem atEnd {post : Unit → List Char → Prop} (h : post () []) :
  Reads atEnd [] post
  := by
  intro offset trace
  exact ⟨(), ⟨offset, []⟩, trace, rfl, h⟩

theorem beforeEnd {post : Unit → List Char → Prop} (h : post () []) :
  Reads beforeEnd [] post
  := by
  intro offset trace
  exact ⟨(), ⟨offset, []⟩, trace, rfl, h⟩

end Reads

/-! ### Refusing -/

namespace Refuses

variable {x y : Reader α} {f : α → Reader β} {cs : List Char} {post : α → List Char → Prop}

theorem bind (h : Refuses x cs) :
  Refuses (x >>= f) cs
  := by
  intro offset trace
  obtain ⟨after, hx⟩ := h offset trace
  use after
  change andThen x f _ _ = _
  simp only [andThen, hx]

theorem bind_of_reads (h : Reads x cs post) (hf : ∀ a rest, post a rest → Refuses (f a) rest) :
  Refuses (x >>= f) cs
  := by
  intro offset trace
  obtain ⟨a, ⟨offset', rest⟩, after, hx, hpost⟩ := h offset trace
  obtain ⟨after', hb⟩ := hf a rest hpost offset' after
  use after'
  change andThen x f _ _ = _
  simp only [andThen, hx, hb]

theorem layout_bind {f : Unit → Reader β} (h : Refuses (f ()) (afterLayout cs)) :
  Refuses (Reader.layout >>= f) cs
  := by
  have hlayout : Reads Reader.layout cs fun _ rest => rest = afterLayout cs := Reads.layout rfl
  apply bind_of_reads hlayout
  rintro _ _ rfl
  exact h

theorem sign_bind {c : Char} {f : Unit → Reader β} (h : Refuses (f ()) cs) :
  Refuses (Reader.sign c >>= f) (c :: cs)
  := by
  have hsign : Reads (Reader.sign c) (c :: cs) fun _ rest => rest = cs := Reads.sign rfl
  apply bind_of_reads hsign
  rintro _ _ rfl
  exact h

theorem map {g : α → β} (h : Refuses x cs) :
  Refuses (g <$> x) cs
  := bind h

theorem or (hx : Refuses x cs) (hy : Refuses y cs) :
  Refuses (x.or y) cs
  := by
  intro offset trace
  obtain ⟨between, hx⟩ := hx offset trace
  obtain ⟨after, hy⟩ := hy offset between
  use after
  simp only [Reader.or, hx, hy]

theorem construct {kind : Construct} (h : Refuses x cs) :
  Refuses (construct kind x) cs
  := by
  intro offset trace
  obtain ⟨after, hx⟩ := h offset trace
  exact ⟨_, by simp only [Reader.construct, hx]; rfl⟩

theorem lexeme {find : List Char → Option (Lexeme α)} (hfind : find cs = none) :
  Refuses (lexeme find) cs
  := by
  intro offset trace
  use trace
  simp only [Reader.lexeme, hfind]

theorem sign {c : Char} (h : cs.head? ≠ some c) :
  Refuses (sign c) cs
  := by
  apply lexeme
  cases cs with
  | nil => rfl
  | cons d cs =>
    have hd : d ≠ c := by
      intro hd
      exact h (by rw [hd, List.head?_cons])
    exact if_neg hd

end Refuses

theorem Reads.optional_none {x : Reader α} {cs : List Char} {goal : Option α → List Char → Prop}
    (hx : Refuses x cs) (h : goal none cs) :
  Reads (optional x) cs goal
  := or_right (Refuses.map hx) (pure h)

/-! ### Finding -/

namespace Finds

variable {x y : Reader α} {f : α → Reader β} {good : α → Prop} {goal : β → Prop}

theorem mono {weaker : α → Prop} (h : Finds x good) (hweaker : ∀ a, good a → weaker a) :
  Finds x weaker
  := by
  constructor
  intro cursor trace a behind after ha
  apply hweaker
  exact h.holds ha

theorem any (x : Reader α) :
  Finds x fun _ => True
  := ⟨fun _ => trivial⟩

theorem pure {a : α} (h : good a) :
  Finds (Pure.pure a) good
  := by
  constructor
  rintro cursor trace b behind after ⟨⟩
  exact h

theorem bind (h : Finds x good) (hf : ∀ a, good a → Finds (f a) goal) :
  Finds (x >>= f) goal
  := by
  constructor
  intro cursor trace b behind after hb
  change andThen x f _ _ = _ at hb
  simp only [andThen] at hb
  split at hb
  case h_1 a between trace' ha =>
    apply (hf a (h.holds ha)).holds hb
  case h_2 => cases hb

/-- What is skipped may be anything. -/
theorem skip (hf : ∀ a, Finds (f a) goal) :
  Finds (x >>= f) goal
  := bind (any x) fun a _ => hf a

theorem map {g : α → β} (h : Finds x fun a => goal (g a)) :
  Finds (g <$> x) goal
  := bind h fun _ ha => pure ha

theorem or (hx : Finds x good) (hy : Finds y good) :
  Finds (x.or y) good
  := by
  constructor
  intro cursor trace a behind after ha
  simp only [Reader.or] at ha
  split at ha
  case h_1 found trace' hfound =>
    cases ha
    exact hx.holds hfound
  case h_2 => exact hy.holds ha

theorem construct {kind : Construct} (h : Finds x good) :
  Finds (construct kind x) good
  := by
  constructor
  intro cursor trace a behind after ha
  simp only [Reader.construct] at ha
  split at ha
  case h_1 found trace' hfound =>
    cases ha
    exact h.holds hfound
  case h_2 => cases ha

theorem optional (h : Finds x good) :
  Finds (optional x) fun found => ∀ a ∈ found, good a
  := by
  apply or
  · apply map
    apply h.mono
    rintro a ha _ ⟨⟩
    exact ha
  · apply pure
    simp

theorem lexeme {find : List Char → Option (Lexeme α)}
    (h : ∀ cs found, find cs = some found → good found.value) :
  Finds (lexeme find) good
  := by
  constructor
  intro cursor trace a behind after ha
  simp only [Reader.lexeme] at ha
  split at ha
  case h_1 found hfind =>
    cases ha
    exact h _ _ hfind
  case h_2 => cases ha

theorem operands {c : Char} (h : Finds x good) (count : Nat) :
  Finds (operands c x count) fun found => ∀ a ∈ found, good a
  := by
  have hdone : Finds (done []) fun found : List α => ∀ a ∈ found, good a := by
    apply pure
    simp
  induction count with
  | zero => exact hdone
  | succ count ih =>
    apply or _ hdone
    apply skip
    intro _
    apply skip
    intro _
    apply skip
    intro _
    apply bind h
    intro a ha
    apply bind ih
    intro others hothers
    apply pure
    exact List.forall_mem_cons.2 ⟨ha, hothers⟩

theorem separated {c : Char} (h : Finds x good) :
  Finds (separated c x) fun found => found ≠ [] ∧ ∀ a ∈ found, good a
  := by
  have hothers : Finds (fun cursor trace => Reader.operands c x cursor.rest.length cursor trace)
      fun found => ∀ a ∈ found, good a := by
    constructor
    intro cursor trace others behind after hfound
    exact (operands h _).holds hfound
  apply bind h
  intro a ha
  apply bind hothers
  intro others hall
  apply pure
  exact ⟨List.cons_ne_nil _ _, List.forall_mem_cons.2 ⟨ha, hall⟩⟩

end Finds

/-! ### Operands -/

section Operands

variable {ι : Type} {c : Char} {operand : Reader α} {sep : List Char} {text : ι → List Char}
  {good : ι → α → Prop} {stops : List Char → Prop}

private theorem stops_flatMap (hstops : ∀ rest, stops (sep ++ rest)) {rest : List Char}
    (hrest : stops rest) (parts : List ι) :
  stops (parts.flatMap (fun i => sep ++ text i) ++ rest)
  := by
  cases parts with
  | nil => exact hrest
  | cons =>
    rw [List.flatMap_cons, List.append_assoc, List.append_assoc]
    apply hstops

/-- Further operands are read as long as there are signs. -/
theorem Reads.operands (hsep : ∀ rest, afterLayout (sep ++ rest) = c :: ' ' :: rest)
    (hstops : ∀ rest, stops (sep ++ rest)) {parts : List ι}
    (hhead : ∀ i ∈ parts, (text i).head?.any (!isLayout ·) = true)
    (hparts : ∀ i ∈ parts, ∀ rest, stops rest → Reads operand (text i ++ rest)
      fun a behind => good i a ∧ afterLayout behind = afterLayout rest)
    {rest : List Char} (hrest : stops rest) (hend : (afterLayout rest).head? ≠ some c)
    {count : Nat} (hcount : parts.length ≤ count) {cs : List Char}
    (hcs : afterLayout cs = afterLayout (parts.flatMap (fun i => sep ++ text i) ++ rest)) :
  Reads (operands c operand count) cs fun as behind =>
    List.Forall₂ good parts as ∧ afterLayout behind = afterLayout rest
  := by
  induction parts generalizing count cs with
  | nil =>
    have hdone : Reads (done []) cs fun as behind =>
        List.Forall₂ good [] as ∧ afterLayout behind = afterLayout rest :=
      Reads.pure ⟨.nil, hcs⟩
    cases count with
    | zero => exact hdone
    | succ count =>
      apply Reads.or_right _ hdone
      apply Refuses.layout_bind
      apply Refuses.bind
      apply Refuses.sign
      rw [hcs]
      exact hend
  | cons i parts ih =>
    obtain ⟨count, rfl⟩ : ∃ n, count = n + 1 := Nat.exists_eq_add_one.2 (by
      rw [List.length_cons] at hcount
      omega)
    have hnext : stops (parts.flatMap (fun i => sep ++ text i) ++ rest) :=
      stops_flatMap hstops hrest parts
    rw [List.flatMap_cons, List.append_assoc, List.append_assoc, hsep] at hcs
    apply Reads.or_left
    apply Reads.layout_bind
    rw [hcs]
    apply Reads.sign_bind
    apply Reads.layout_bind
    have hskip (rest : List Char) : afterLayout (' ' :: rest) = afterLayout rest := rfl
    rw [hskip, afterLayout_append (hhead i (by simp))]
    apply Reads.bind (hparts i (by simp) _ hnext)
    rintro a behind ⟨ha, hbehind⟩
    apply Reads.bind
    · apply ih
      · intro j hj
        exact hhead j (by simp [hj])
      · intro j hj
        exact hparts j (by simp [hj])
      · rw [List.length_cons] at hcount
        omega
      · exact hbehind
    · rintro as behind' ⟨has, hbehind'⟩
      exact Reads.pure ⟨.cons ha has, hbehind'⟩

private theorem length_le_afterLayout_flatMap
    (hsep : ∀ rest, afterLayout (sep ++ rest) = c :: ' ' :: rest) (parts : List ι)
    (rest : List Char) :
  parts.length ≤ (afterLayout (parts.flatMap (fun i => sep ++ text i) ++ rest)).length
  := by
  have hpos : 0 < sep.length := by
    have h := length_afterLayout_le (sep ++ [])
    rw [hsep, List.append_nil, List.length_cons] at h
    omega
  have hlength (parts : List ι) :
      parts.length ≤ (parts.flatMap fun i => sep ++ text i).length := by
    induction parts with
    | nil => simp
    | cons i parts ih =>
      simp only [List.flatMap_cons, List.length_append, List.length_cons]
      omega
  cases parts with
  | nil => simp
  | cons i parts =>
    have h := hlength parts
    rw [List.flatMap_cons, List.append_assoc, List.append_assoc, hsep]
    simp only [List.length_cons, List.length_append]
    omega

/-- Operands with signs between them are read one after the other, where the text behind them
does not go on with the sign. -/
theorem Reads.separated (hsep : ∀ rest, afterLayout (sep ++ rest) = c :: ' ' :: rest)
    (hstops : ∀ rest, stops (sep ++ rest)) {parts : List ι} (hne : parts ≠ [])
    (hhead : ∀ i ∈ parts, (text i).head?.any (!isLayout ·) = true)
    (hparts : ∀ i ∈ parts, ∀ rest, stops rest → Reads operand (text i ++ rest)
      fun a behind => good i a ∧ afterLayout behind = afterLayout rest)
    {rest : List Char} (hrest : stops rest) (hend : (afterLayout rest).head? ≠ some c) :
  Reads (separated c operand) (sep.intercalate (parts.map text) ++ rest) fun as behind =>
    List.Forall₂ good parts as ∧ afterLayout behind = afterLayout rest
  := by
  cases parts with
  | nil => exact absurd rfl hne
  | cons i parts =>
    have hnext : stops (parts.flatMap (fun i => sep ++ text i) ++ rest) :=
      stops_flatMap hstops hrest parts
    rw [List.map_cons, intercalate_cons, List.flatMap_map, List.append_assoc]
    apply Reads.bind (hparts i (by simp) _ hnext)
    rintro a behind ⟨ha, hbehind⟩
    have hcount : parts.length ≤ behind.length :=
      calc parts.length
          ≤ (afterLayout (parts.flatMap (fun i => sep ++ text i) ++ rest)).length :=
            length_le_afterLayout_flatMap hsep parts rest
        _ = (afterLayout behind).length := by rw [hbehind]
        _ ≤ behind.length := length_afterLayout_le behind
    have hoperands : Reads (Reader.operands c operand behind.length) behind fun as behind' =>
        List.Forall₂ good parts as ∧ afterLayout behind' = afterLayout rest := by
      apply Reads.operands hsep hstops _ _ hrest hend hcount hbehind
      · intro j hj
        exact hhead j (by simp [hj])
      · intro j hj
        exact hparts j (by simp [hj])
    have hothers : Reads (fun cursor trace =>
        Reader.operands c operand cursor.rest.length cursor trace) behind fun as behind' =>
        List.Forall₂ good parts as ∧ afterLayout behind' = afterLayout rest := by
      intro offset trace
      exact hoperands offset trace
    apply Reads.bind hothers
    rintro as behind' ⟨has, hbehind'⟩
    exact Reads.pure ⟨.cons ha has, hbehind'⟩

end Operands

end Reader

end Sift.Syntax
