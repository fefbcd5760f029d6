/-!
# Looking up entries

What is found under a key is an entry, and where each key has one entry, every entry is found.
-/

namespace OperatorBundle

variable {α β : Type} [BEq α] [LawfulBEq α] {entries : List (α × β)} {key : α} {b : β}

/-- What is found is an entry. -/
theorem mem_of_lookup (h : entries.lookup key = some b) : (key, b) ∈ entries := by
  obtain ⟨before, after, rfl, _⟩ := List.lookup_eq_some_iff.mp h
  exact List.mem_append_right before List.mem_cons_self

/-- Where keys differ pairwise, every entry is found. -/
theorem lookup_of_mem (hapart : entries.Pairwise fun a b => a.1 ≠ b.1) (h : (key, b) ∈ entries) :
    entries.lookup key = some b := by
  obtain ⟨before, after, rfl⟩ := List.append_of_mem h
  refine List.lookup_eq_some_iff.mpr ⟨before, after, rfl, ?_⟩
  intro first hfirst
  rw [bne_iff_ne]
  exact ((List.pairwise_append.mp hapart).2.2 first hfirst _ List.mem_cons_self).symm

/-- Nothing is found just if there is no such key. -/
theorem lookup_eq_none_iff : entries.lookup key = none ↔ key ∉ entries.map Prod.fst := by
  rw [List.lookup_eq_none_iff]
  constructor
  · intro h hmem
    obtain ⟨e, he, rfl⟩ := List.mem_map.mp hmem
    exact bne_iff_ne.mp (h e he) rfl
  · intro h e he
    rw [bne_iff_ne]
    rintro rfl
    exact h (List.mem_map_of_mem he)

end OperatorBundle
