/-!
# Splitting and joining

A text and its parts between the occurrences of a separator.  `join_split` says that joining the
parts gives the text back, so nothing but separators is dropped.
-/

namespace OperatorBundle.Text

/-- The parts of a text between separators.  There is one part more than there are separators. -/
def split (separator : Char) : List Char → List (List Char)
  | [] => [[]]
  | c :: r =>
      if c == separator then [] :: split separator r
      else
        match split separator r with
        | part :: parts => (c :: part) :: parts
        | [] => [[c]]

/-- The parts with a separator between each two. -/
def join (separator : Char) : List (List Char) → List Char
  | [] => []
  | [part] => part
  | part :: parts => part ++ separator :: join separator parts

theorem split_ne_nil (separator : Char) (s : List Char) : split separator s ≠ [] := by
  cases s with
  | nil => simp [split]
  | cons c r =>
      simp only [split]
      split
      · simp
      · split <;> simp

/-- No text is lost by splitting. -/
theorem join_split (separator : Char) (s : List Char) :
    join separator (split separator s) = s := by
  induction s with
  | nil => rfl
  | cons c r ih =>
      have nonempty := split_ne_nil separator r
      cases hs : split separator r with
      | nil => exact absurd hs nonempty
      | cons part parts =>
          rw [hs] at ih
          by_cases h : c = separator
          · subst h
            simp [split, hs, join, ih]
          · cases parts with
            | nil => simpa [split, hs, h, join] using ih
            | cons next others => simpa [split, hs, h, join] using ih

end OperatorBundle.Text
