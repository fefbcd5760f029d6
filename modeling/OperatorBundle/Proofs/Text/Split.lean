import OperatorBundle.Text.Split

/-!
# Splitting undoes joining

`Text.join_split` says that nothing is lost by splitting.  Here is the other direction: parts
without separators are found again, so a text and its parts determine each other.
-/

namespace OperatorBundle.Text

variable {separator : Char}

/-- A text without separators is its only part. -/
theorem split_of_not_mem {s : List Char} (h : separator ∉ s) : split separator s = [s] := by
  induction s with
  | nil => rfl
  | cons c r ih =>
      rw [List.mem_cons, not_or] at h
      have hc : (c == separator) = false := by
        rw [beq_eq_false_iff_ne]
        exact fun e => h.1 e.symm
      simp only [split, hc, ih h.2, Bool.false_eq_true, if_false]

/-- Splitting at a separator that is known: the parts before it, then the parts behind it. -/
theorem split_append (s t : List Char) :
    split separator (s ++ separator :: t) = split separator s ++ split separator t := by
  induction s with
  | nil => simp [split]
  | cons c r ih =>
      by_cases hc : c = separator
      · simp [split, hc, ih]
      · have nonempty := split_ne_nil separator r
        cases hs : split separator r with
        | nil => exact absurd hs nonempty
        | cons part parts => simp [split, hc, ih, hs]

/-- What stands in front of the first separator belongs to the first part. -/
theorem exists_split_append {s : List Char} (h : separator ∉ s) (t : List Char) :
    ∃ part parts, split separator (s ++ t) = (s ++ part) :: parts := by
  induction s with
  | nil => exact List.exists_cons_of_ne_nil (split_ne_nil separator t)
  | cons c r ih =>
      rw [List.mem_cons, not_or] at h
      have hc : (c == separator) = false := beq_eq_false_iff_ne.mpr fun e => h.1 e.symm
      obtain ⟨part, parts, hsplit⟩ := ih h.2
      refine ⟨part, parts, ?_⟩
      simp only [List.cons_append, split, hc, hsplit, Bool.false_eq_true, if_false]

/-- No part holds a separator. -/
theorem not_mem_of_mem_split {s part : List Char} (h : part ∈ split separator s) :
    separator ∉ part := by
  induction s generalizing part with
  | nil =>
      rw [split, List.mem_singleton] at h
      rw [h]
      exact List.not_mem_nil
  | cons c r ih =>
      by_cases hc : c = separator
      · rw [split, hc, beq_self_eq_true, if_pos rfl, List.mem_cons] at h
        rcases h with h | h
        · rw [h]
          exact List.not_mem_nil
        · exact ih h
      · have nonempty := split_ne_nil separator r
        cases hs : split separator r with
        | nil => exact absurd hs nonempty
        | cons first others =>
            rw [hs] at ih
            simp only [split, hs, beq_eq_false_iff_ne.mpr hc, Bool.false_eq_true, if_false,
              List.mem_cons] at h
            rcases h with h | h
            · rw [h, List.mem_cons, not_or]
              exact ⟨fun e => hc e.symm, ih List.mem_cons_self⟩
            · exact ih (List.mem_cons_of_mem first h)

/-- Parts without separators are found again in what joins them. -/
theorem split_join {parts : List (List Char)} (nonempty : parts ≠ [])
    (h : ∀ part ∈ parts, separator ∉ part) : split separator (join separator parts) = parts := by
  induction parts with
  | nil => exact absurd rfl nonempty
  | cons part parts ih =>
      have hpart : separator ∉ part := h part List.mem_cons_self
      cases parts with
      | nil => simpa [join] using split_of_not_mem hpart
      | cons next others =>
          have hrest : split separator (join separator (next :: others)) = next :: others :=
            ih (List.cons_ne_nil _ _) fun q hq => h q (List.mem_cons_of_mem part hq)
          rw [join, split_append, split_of_not_mem hpart, hrest]
          · rfl
          · exact List.cons_ne_nil _ _

end OperatorBundle.Text
