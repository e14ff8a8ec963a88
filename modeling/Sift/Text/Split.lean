/-!
# Splitting texts

`Text.split` cuts a text at each occurrence of a character. A text without it is its only part
(`split_eq_singleton`).
-/

namespace Sift.Text

/-- The first of several parts with a character before it. -/
def consPart (c : Char) : List (List Char) → List (List Char)
  | [] => [[c]]
  | part :: rest => (c :: part) :: rest

/-- The parts of a text between the occurrences of a character. -/
def split (sign : Char) : List Char → List (List Char)
  | [] => [[]]
  | c :: cs => if c = sign then [] :: split sign cs else consPart c (split sign cs)

theorem split_eq_singleton {sign : Char} {cs : List Char} (h : sign ∉ cs) :
  split sign cs = [cs]
  := by
  induction cs with
  | nil => rfl
  | cons c cs ih =>
    rw [List.mem_cons, not_or] at h
    simp [split, Ne.symm h.1, ih h.2, consPart]

end Sift.Text
