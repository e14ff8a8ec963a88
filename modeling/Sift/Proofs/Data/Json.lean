import Sift.Data.Json
import Sift.Proofs.Syntax.Layout

/-!
# JSON that is written is read back

A text in quotes is read back character by character (`string?_escape`). `read?_indented` is the
result for records of texts and truth values, such as saved queries are.
-/

namespace Sift.Json

/-! ### Layout -/

@[simp]
theorem skip_newline (level : Nat) (cs : List Char) :
  skip (newline level ++ cs) = skip cs
  := by
  have hspaces : ∀ n, skip (List.replicate n ' ' ++ cs) = skip cs := by
    intro n
    induction n with
    | zero => rfl
    | succ n ih => exact ih
  exact hspaces (2 * level)

theorem skip_skip (cs : List Char) :
  skip (skip cs) = skip cs
  := by
  apply List.dropWhile_idempotent

/-! ### Characters and texts -/

theorem hexDigit?_hexDigit {n : Nat} (h : n < 16) :
  hexDigit? (hexDigit n) = some n
  := by
  have hall : ∀ n < 16, hexDigit? (hexDigit n) = some n := by decide
  exact hall n h

/-- The escape of a control character. -/
theorem unicodeEscape?_control {c : Char} (h : c.toNat < 32) (rest : List Char) :
  unicodeEscape? ('0' :: '0' :: hexDigit (c.toNat / 16) :: hexDigit (c.toNat % 16) :: rest)
    = some (some c, rest)
  := by
  have hhigh : hexDigit? (hexDigit (c.toNat / 16)) = some (c.toNat / 16) :=
    hexDigit?_hexDigit (by omega)
  have hlow : hexDigit? (hexDigit (c.toNat % 16)) = some (c.toNat % 16) :=
    hexDigit?_hexDigit (by omega)
  have hzero : hexDigit? '0' = some 0 := rfl
  have hvalue : ((0 * 16 + 0) * 16 + c.toNat / 16) * 16 + c.toNat % 16 = c.toNat := by omega
  have hquad : hexQuad? ('0' :: '0' :: hexDigit (c.toNat / 16) :: hexDigit (c.toNat % 16) :: rest)
      = some (c.toNat, rest) := by
    simp only [hexQuad?, hzero, hhigh, hlow, Option.bind_eq_bind, Option.bind_some, hvalue]
    rfl
  have hfar : ¬ 0xD800 ≤ c.toNat ∧ ¬ 0xDC00 ≤ c.toNat := by omega
  simp [unicodeEscape?, hquad, hfar.1, hfar.2]

/-- A character is written as itself or as an escape that is read as it. -/
theorem escape_cases (c : Char) :
  (escape c = [c] ∧ c ≠ '"' ∧ c ≠ '\\' ∧ ¬ c.toNat < 32)
    ∨ ∃ code, escape c = '\\' :: code ∧ ∀ rest, escape? (code ++ rest) = some (some c, rest)
  := by
  have hnamed {code : List Char} {d : Char} (hcd : c = d) (hcode : escape d = '\\' :: code)
      (hread : ∀ rest, escape? (code ++ rest) = some (some d, rest)) :
      ∃ code, escape c = '\\' :: code ∧ ∀ rest, escape? (code ++ rest) = some (some c, rest) := by
    subst hcd
    exact ⟨code, hcode, hread⟩
  have hofNat {n : Nat} (h : c.toNat = n) : c = Char.ofNat n := by
    rw [← h, Char.ofNat_toNat]
  by_cases hquote : c = '"'
  · exact .inr (hnamed hquote rfl fun _ => rfl)
  by_cases hslash : c = '\\'
  · exact .inr (hnamed hslash rfl fun _ => rfl)
  by_cases hn : c = '\n'
  · exact .inr (hnamed hn rfl fun _ => rfl)
  by_cases hr : c = '\r'
  · exact .inr (hnamed hr rfl fun _ => rfl)
  by_cases ht : c = '\t'
  · exact .inr (hnamed ht rfl fun _ => rfl)
  by_cases hb : c.toNat = 8
  · exact .inr (hnamed (hofNat hb) rfl fun _ => rfl)
  by_cases hf : c.toNat = 12
  · exact .inr (hnamed (hofNat hf) rfl fun _ => rfl)
  simp only [escape, hquote, hslash, hn, hr, ht, hb, hf, if_false]
  by_cases hcontrol : c.toNat < 32
  · right
    rw [if_pos hcontrol]
    exact ⟨_, rfl, unicodeEscape?_control hcontrol⟩
  · left
    rw [if_neg hcontrol]
    exact ⟨rfl, hquote, hslash, hcontrol⟩

/-- A character in quotes is read back. -/
theorem string?_escape (fuel : Nat) (c : Char) (rest : List Char) :
  string? (fuel + 1) (escape c ++ rest)
    = (string? fuel rest).map fun found => (some c :: found.1, found.2)
  := by
  obtain ⟨hescape, hquote, hslash, hcontrol⟩ | ⟨code, hescape, hcode⟩ := escape_cases c
  · rw [hescape, List.singleton_append, string?, if_neg hcontrol]
    · cases string? fuel rest <;> rfl
    · exact hquote
    · exact hslash
  · rw [hescape, List.cons_append, string?, hcode]
    simp only [Option.bind_eq_bind, Option.bind_some]
    cases string? fuel rest <;> rfl

theorem length_escape_pos (c : Char) :
  1 ≤ (escape c).length
  := by
  obtain ⟨hescape, -⟩ | ⟨code, hescape, -⟩ := escape_cases c
  · rw [hescape]
    exact Nat.le_refl 1
  · rw [hescape]
    exact Nat.le_add_left 1 _

/-- The contents of a text in quotes are read back. -/
theorem string?_flatMap_escape (cs rest : List Char) {fuel : Nat}
    (hfuel : (cs.flatMap escape).length < fuel) :
  string? fuel (cs.flatMap escape ++ '"' :: rest) = some (cs.map some, rest)
  := by
  obtain ⟨fuel, rfl⟩ := Nat.exists_eq_add_one.mpr (Nat.zero_lt_of_lt hfuel)
  induction cs generalizing fuel with
  | nil => rfl
  | cons c cs ih =>
    have hlength := length_escape_pos c
    rw [List.flatMap_cons, List.length_append] at hfuel
    obtain ⟨fuel, rfl⟩ : ∃ fewer, fuel = fewer + 1 := Nat.exists_eq_add_one.mpr (by omega)
    rw [List.flatMap_cons, List.append_assoc, string?_escape, ih fuel (by omega)]
    rfl

/-- A text in quotes is read back. -/
theorem string?_quote (s : String) (rest : List Char) :
  ∃ behind, quote s ++ rest = '"' :: behind
    ∧ string? (behind.length + 1) behind = some (s.toList.map some, rest)
  := by
  use s.toList.flatMap escape ++ '"' :: rest
  constructor
  · simp [quote]
  · apply string?_flatMap_escape
    rw [List.length_append]
    omega

theorem mapM_map_eq_some {α β : Type} {read : β → Option α} {write : α → β}
    (h : ∀ a, read (write a) = some a) (items : List α) :
  (items.map write).mapM read = some items
  := by
  induction items with
  | nil => rfl
  | cons a items ih => simp [List.mapM_cons, h, ih]

theorem textOf?_map_some (s : String) :
  textOf? (s.toList.map some) = some s
  := by
  have hmapM : (s.toList.map some).mapM id = some s.toList := by
    apply mapM_map_eq_some
    intro c
    rfl
  rw [textOf?, hmapM, Option.map_some, String.ofList_toList]

/-! ### Values -/

/-- Whether a value is a text or a truth value. -/
def IsScalar (d : Data) : Prop :=
  (∃ s, d = .text s) ∨ ∃ b, d = .bool b

theorem value?_scalar {d : Data} (h : IsScalar d) (fuel : Nat) (rest : List Char) :
  value? (fuel + 1) (' ' :: scalar d ++ rest) = some (d, rest)
  := by
  obtain ⟨s, rfl⟩ | ⟨b, rfl⟩ := h
  · obtain ⟨behind, hquote, hread⟩ := string?_quote s rest
    have hskip : skip (' ' :: '"' :: behind) = '"' :: behind := rfl
    rw [scalar, List.cons_append, hquote, value?, hskip]
    simp [hread, textOf?_map_some]
  · cases b <;> rfl

/-! ### Records -/

/-- An entry of a record as it is written. -/
def entryChars (entry : String × Data) : List Char :=
  quote entry.1 ++ ':' :: ' ' :: scalar entry.2

theorem indentedEntries_eq_map {entries : List (String × Data)}
    (h : ∀ entry ∈ entries, IsScalar entry.2) (level : Nat) :
  indentedEntries level entries = entries.map entryChars
  := by
  induction entries with
  | nil => rfl
  | cons entry rest ih =>
    obtain ⟨key, d⟩ := entry
    have hd : indentedChars level d = scalar d := by
      obtain ⟨s, rfl⟩ | ⟨b, rfl⟩ := h (key, d) (by simp)
      · rfl
      · rfl
    rw [indentedEntries, hd, ih fun entry hentry => h entry (by simp [hentry])]
    rfl

/-- The key and the value of an entry are read back, and then what stands behind it settles how the
record goes on. -/
theorem entries?_entry {entry : String × Data} (h : IsScalar entry.2) (level fuel : Nat)
    {rest after : List Char} {found : List (Option String × Data)}
    (hbehind : skip rest = '\x7d' :: after ∧ found = []
      ∨ ∃ behind, skip rest = ',' :: behind ∧ entries? (fuel + 1) behind = some (found, after)) :
  entries? (fuel + 2) (newline level ++ entryChars entry ++ rest)
    = some ((some entry.1, entry.2) :: found, after)
  := by
  obtain ⟨contents, hquote, hread⟩ := string?_quote entry.1 (':' :: ' ' :: scalar entry.2 ++ rest)
  have htext : newline level ++ entryChars entry ++ rest = newline level ++ ('"' :: contents) := by
    rw [← hquote, entryChars]
    simp
  have hkey : skip ('"' :: contents) = '"' :: contents := rfl
  have hcolon : skip (':' :: ' ' :: scalar entry.2 ++ rest)
      = ':' :: (' ' :: scalar entry.2 ++ rest) := rfl
  rw [htext, entries?, skip_newline, hkey]
  simp only [hread, Option.bind_eq_bind, Option.bind_some, hcolon, value?_scalar h fuel rest,
    textOf?_map_some]
  obtain ⟨hskip, rfl⟩ | ⟨behind, hskip, hfound⟩ := hbehind
  · rw [hskip]
    rfl
  · rw [hskip]
    simp only [hfound]
    rfl

theorem recordOf_map_some (entries : List (String × Data)) :
  recordOf (entries.map fun entry => (some entry.1, entry.2)) = .record entries
  := by
  have hmapM : (entries.map fun entry => (some entry.1, entry.2)).mapM
      (fun entry : Option String × Data => entry.1.map (·, entry.2)) = some entries := by
    apply mapM_map_eq_some
    intro entry
    rfl
  rw [recordOf, hmapM]

/-- Entries with a comma between each two are read back up to the closing brace. -/
theorem entries?_entryChars {entry : String × Data} {others : List (String × Data)}
    (h : ∀ other ∈ entry :: others, IsScalar other.2) (level : Nat) (rest : List Char) {fuel : Nat}
    (hfuel : others.length < fuel) :
  entries? (fuel + 1) (newline level ++ entryChars entry
      ++ (others.flatMap (fun other => ',' :: newline level ++ entryChars other)
        ++ newline 0 ++ '\x7d' :: rest))
    = some ((entry :: others).map fun entry => (some entry.1, entry.2), rest)
  := by
  obtain ⟨fuel, rfl⟩ := Nat.exists_eq_add_one.mpr (Nat.zero_lt_of_lt hfuel)
  induction others generalizing entry fuel with
  | nil =>
    apply entries?_entry (h entry (by simp)) level fuel
    exact .inl ⟨rfl, rfl⟩
  | cons second others ih =>
    rw [List.length_cons] at hfuel
    obtain ⟨fuel, rfl⟩ := Nat.exists_eq_add_one.mpr (Nat.lt_of_lt_of_le (Nat.succ_pos _)
      (Nat.le_of_lt_succ hfuel))
    have hrest := ih (fun other hother => h other (List.mem_cons_of_mem _ hother)) fuel (by omega)
    apply entries?_entry (h entry (by simp)) level (fuel + 1)
    refine .inr ⟨_, ?_, hrest⟩
    simp only [List.flatMap_cons, List.cons_append, List.append_assoc]
    rfl

theorem entries?_skip (fuel : Nat) (cs : List Char) :
  entries? fuel (skip cs) = entries? fuel cs
  := by
  cases fuel with
  | zero => rfl
  | succ fuel => rw [entries?, entries?, skip_skip]

/-- A record with entries is read as its entries are. -/
theorem value?_record {fuel : Nat} {cs rest behind : List Char}
    {entries : List (Option String × Data)} (hcs : skip cs = '"' :: rest)
    (h : entries? fuel cs = some (entries, behind)) :
  value? (fuel + 1) ('\x7b' :: cs) = some (recordOf entries, behind)
  := by
  have hbrace : skip ('\x7b' :: cs) = '\x7b' :: cs := rfl
  rw [← entries?_skip, hcs] at h
  rw [value?, hbrace]
  simp only [hcs]
  change (entries? fuel ('"' :: rest)).bind (fun found => some (recordOf found.1, found.2)) = _
  rw [h, Option.bind_some]

theorem length_le_entriesChars (level : Nat) (entries : List (String × Data)) :
  entries.length ≤ (entries.flatMap fun other => ',' :: newline level ++ entryChars other).length
  := by
  induction entries with
  | nil => exact Nat.le_refl 0
  | cons entry others ih =>
    rw [List.flatMap_cons, List.length_append, List.length_cons, List.cons_append, List.length_cons]
    omega

/-- A record of texts and truth values is read back. -/
theorem read?_indented {entries : List (String × Data)} (h : ∀ entry ∈ entries, IsScalar entry.2) :
  read? (indented (.record entries)) = some (.record entries)
  := by
  cases entries with
  | nil => rfl
  | cons entry others =>
    obtain ⟨body, hbody⟩ : ∃ body, body = newline 1 ++ entryChars entry
      ++ (others.flatMap (fun other => ',' :: newline 1 ++ entryChars other)
        ++ newline 0 ++ '\x7d' :: []) := ⟨_, rfl⟩
    have hchars : indentedChars 0 (.record (entry :: others)) = '\x7b' :: body := by
      rw [indentedChars, indentedEntries_eq_map h, List.map_cons, Syntax.intercalate_cons,
        List.flatMap_map, hbody]
      simp
    have hlength : others.length < 2 * (body.length + 1) := by
      have := length_le_entriesChars 1 others
      rw [hbody]
      simp only [List.length_append]
      omega
    have hread := entries?_entryChars h 1 [] hlength
    rw [← hbody] at hread
    obtain ⟨rest, hrest⟩ : ∃ rest, skip body = '"' :: rest := by
      rw [hbody, List.append_assoc, skip_newline, entryChars, quote]
      exact ⟨_, rfl⟩
    rw [read?, indented, String.toList_ofList, hchars, List.length_cons,
      value?_record hrest hread, recordOf_map_some]
    rfl

end Sift.Json
