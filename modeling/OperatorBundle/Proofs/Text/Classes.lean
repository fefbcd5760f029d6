import Mathlib.Data.Option.Basic

/-!
# Classes of characters

A reader takes the characters of a class up to the first of another.  Where a text stops a class, the
reader finds just the characters in front.
-/

namespace OperatorBundle.Text

/-- What is said of all characters of a list is decided by going through the list, and not through all
characters there are. -/
instance (priority := high) decidableForallMemChar {p : Char → Prop} [DecidablePred p]
    (s : List Char) : Decidable (∀ c ∈ s, p c) := List.decidableBAll p s

variable {p : Char → Bool} {text rest said : List Char} {c : Char}

/-- Is the first character, if there is one, not of this class? -/
def Stops (p : Char → Bool) (rest : List Char) : Prop := ∀ c ∈ rest.head?, p c = false

theorem stops_nil : Stops p [] := nofun

/-- A text stops a class if its first character is not of it. -/
theorem stops_cons : Stops p (c :: rest) ↔ p c = false := by
  constructor
  · exact fun h => h c rfl
  · intro h d hd
    cases hd
    exact h

/-- What is not of a class is not of a smaller one. -/
theorem Stops.mono {q : Char → Bool} (h : Stops p rest) (hclass : ∀ c, q c = true → p c = true) :
    Stops q rest := by
  intro c hc
  cases hq : q c with
  | false => rfl
  | true => exact absurd (hclass c hq) (Bool.eq_false_iff.mp (h c hc))

/-- Nothing is dropped in front of another class. -/
theorem dropWhile_of_stops (h : Stops p rest) : rest.dropWhile p = rest := by
  cases rest with
  | nil => rfl
  | cons c r => exact List.dropWhile_cons_of_neg (Bool.eq_false_iff.mp (stops_cons.mp h))

/-- Nothing is taken in front of another class. -/
theorem takeWhile_of_stops (h : Stops p rest) : rest.takeWhile p = [] := by
  cases rest with
  | nil => rfl
  | cons c r => exact List.takeWhile_cons_of_neg (Bool.eq_false_iff.mp (stops_cons.mp h))

/-- Characters of a class are dropped up to the first of another. -/
theorem dropWhile_append (hsaid : ∀ c ∈ said, p c = true) (hrest : Stops p rest) :
    (said ++ rest).dropWhile p = rest := by
  rw [List.dropWhile_append_of_pos hsaid, dropWhile_of_stops hrest]

/-- Characters of a class are taken up to the first of another. -/
theorem takeWhile_append (hsaid : ∀ c ∈ said, p c = true) (hrest : Stops p rest) :
    (said ++ rest).takeWhile p = said := by
  rw [List.takeWhile_append_of_pos hsaid, takeWhile_of_stops hrest, List.append_nil]

/-- What is left when a class has been dropped stops it. -/
theorem stops_dropWhile (p : Char → Bool) (text : List Char) : Stops p (text.dropWhile p) := by
  intro c hc
  have hnot := List.head?_dropWhile_not p text
  rw [Option.mem_def.mp hc] at hnot
  exact hnot

/-- What is taken is of the class. -/
theorem of_mem_takeWhile {d : Char} (h : d ∈ text.takeWhile p) : p d = true :=
  List.all_eq_true.mp List.all_takeWhile d h

/-- What is left behind the characters of a class. -/
theorem drop_length_takeWhile (p : Char → Bool) (text : List Char) :
    text.drop (text.takeWhile p).length = text.dropWhile p :=
  calc text.drop (text.takeWhile p).length
      = (text.takeWhile p ++ text.dropWhile p).drop (text.takeWhile p).length := by
        rw [List.takeWhile_append_dropWhile]
    _ = text.dropWhile p := List.drop_left

end OperatorBundle.Text
