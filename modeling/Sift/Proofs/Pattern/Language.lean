import Mathlib.Computability.Language

/-!
# Languages of patterns

What a regular expression matches is a `Language` of characters. To sums and products come
`single`, the texts of one character of a kind, and `repeated`, the texts made of a number of
texts within bounds. Languages that are made in the same way of languages which agree on the texts
of certain characters, agree on these texts as well: that is what `AgreeOn` is kept by.
-/

namespace Sift.Pattern

/-- The texts that consist of one character of a kind. -/
def single (kind : Char → Prop) : Language Char :=
  {s | ∃ c, kind c ∧ s = [c]}

/-- The texts that consist of at least `low` and at most `high` texts of a language. -/
def repeated (low : Nat) (high : Option Nat) (L : Language Char) : Language Char :=
  {s | ∃ n, low ≤ n ∧ (∀ m ∈ high, n ≤ m) ∧ s ∈ L ^ n}

theorem single_congr {p q : Char → Prop} (h : ∀ c, p c ↔ q c) :
  single p = single q
  := by
  rw [funext fun c => propext (h c)]

theorem mem_repeated {low : Nat} {high : Option Nat} {L : Language Char} {s : List Char} :
  s ∈ repeated low high L ↔ ∃ n, low ≤ n ∧ (∀ m ∈ high, n ≤ m) ∧ s ∈ L ^ n
  := Iff.rfl

/-- Characters of a kind, any number of them. -/
theorem mem_repeated_single {kind : Char → Prop} {s : List Char} :
  s ∈ repeated 0 none (single kind) ↔ ∀ c ∈ s, kind c
  := by
  constructor
  · rintro ⟨n, -, -, hn⟩
    obtain ⟨parts, rfl, -, hparts⟩ := Language.mem_pow.mp hn
    intro c hc
    obtain ⟨part, hpart, hc⟩ := List.mem_flatten.mp hc
    obtain ⟨d, hd, rfl⟩ := hparts part hpart
    obtain rfl := List.mem_singleton.mp hc
    exact hd
  · intro h
    refine ⟨s.length, Nat.zero_le _, by simp, ?_⟩
    apply Language.mem_pow.mpr
    use s.map fun c => [c]
    refine ⟨by simp [← List.flatMap_def], by simp, ?_⟩
    intro part hpart
    obtain ⟨c, hc, rfl⟩ := List.mem_map.mp hpart
    exact ⟨c, h c hc, rfl⟩

/-- Every text is one of any characters. -/
theorem mem_anything (s : List Char) :
  s ∈ repeated 0 none (single fun _ => True)
  := mem_repeated_single.mpr fun _ _ => trivial

/-! ### Agreement on some texts -/

/-- Whether two languages have the same texts of characters of a kind. -/
def AgreeOn (kind : Char → Prop) (L M : Language Char) : Prop :=
  ∀ s, (∀ c ∈ s, kind c) → (s ∈ L ↔ s ∈ M)

namespace AgreeOn

variable {kind : Char → Prop} {L M L' M' : Language Char}

theorem refl (L : Language Char) :
  AgreeOn kind L L
  := fun _ _ => Iff.rfl

theorem symm (h : AgreeOn kind L M) :
  AgreeOn kind M L
  := fun s hs => (h s hs).symm

theorem single {p q : Char → Prop} (h : ∀ c, kind c → (p c ↔ q c)) :
  AgreeOn kind (single p) (single q)
  := by
  intro s hs
  constructor
  · rintro ⟨c, hc, rfl⟩
    exact ⟨c, (h c (hs c (by simp))).mp hc, rfl⟩
  · rintro ⟨c, hc, rfl⟩
    exact ⟨c, (h c (hs c (by simp))).mpr hc, rfl⟩

theorem add (hL : AgreeOn kind L L') (hM : AgreeOn kind M M') :
  AgreeOn kind (L + M) (L' + M')
  := by
  intro s hs
  rw [Language.mem_add, Language.mem_add, hL s hs, hM s hs]

private theorem mul_le (hL : AgreeOn kind L L') (hM : AgreeOn kind M M') {s : List Char}
    (hs : ∀ c ∈ s, kind c) (h : s ∈ L * M) :
  s ∈ L' * M'
  := by
  obtain ⟨a, ha, b, hb, rfl⟩ := Language.mem_mul.mp h
  apply Language.append_mem_mul
  · apply (hL a fun c hc => hs c (List.mem_append_left b hc)).mp ha
  · apply (hM b fun c hc => hs c (List.mem_append_right a hc)).mp hb

theorem mul (hL : AgreeOn kind L L') (hM : AgreeOn kind M M') :
  AgreeOn kind (L * M) (L' * M')
  := fun _ hs => ⟨mul_le hL hM hs, mul_le hL.symm hM.symm hs⟩

theorem pow (h : AgreeOn kind L M) (n : Nat) :
  AgreeOn kind (L ^ n) (M ^ n)
  := by
  induction n with
  | zero =>
    rw [pow_zero, pow_zero]
    apply refl
  | succ n ih =>
    rw [pow_succ, pow_succ]
    apply ih.mul h

theorem repeated (h : AgreeOn kind L M) (low : Nat) (high : Option Nat) :
  AgreeOn kind (repeated low high L) (repeated low high M)
  := by
  intro s hs
  simp only [mem_repeated, h.pow _ s hs]

end AgreeOn

end Sift.Pattern
