import OperatorBundle.Proofs.Yaml.Edit
import OperatorBundle.Proofs.Yaml.Restorable
import OperatorBundle.Yaml.Value.Rebuilt

/-!
# What becomes of values made anew

A value that is made anew keeps what all its parts have (`IsHereditary.rebuilt`).  It is the same
value exactly if all its tags are shown with their names (`rebuilt_eq_self_iff`): two tags that are
shown alike can make two keys of a mapping equal, of which then only one is left.
-/

namespace OperatorBundle.Yaml

/-! ## Entries -/

namespace Entries

/-- A value is put in an old place only if its key is there. -/
theorem insert_eq_append {es : Entries} {key : Value} (h : ∀ e ∈ es, e.1.same key = false)
    (v : Value) : es.insert key v = es ++ [(key, v)] := by
  induction es with
  | nil => rfl
  | cons e es ih =>
      obtain ⟨k, old⟩ := e
      have hk : k.same key = false := h (k, old) List.mem_cons_self
      rw [insert, if_neg (Bool.eq_false_iff.mp hk), ih fun e he => h e (List.mem_cons_of_mem _ he)]
      rfl

/-- A key is the last one, or there is one like it and the keys are as before. -/
theorem keys_insert (es : Entries) (key v : Value) :
    (es.insert key v).map (·.1) = es.map (·.1) ∨
      es.insert key v = es ++ [(key, v)] ∧ ∀ e ∈ es, e.1.same key = false := by
  induction es with
  | nil => exact .inr ⟨rfl, nofun⟩
  | cons e es ih =>
      obtain ⟨k, old⟩ := e
      rw [insert]
      split
      · exact .inl rfl
      · rename_i hk
        rcases ih with hsame | ⟨hlast, hnew⟩
        · exact .inl (congrArg (k :: ·) hsame)
        · exact .inr ⟨congrArg ((k, old) :: ·) hlast,
            List.forall_mem_cons.mpr ⟨Bool.eq_false_iff.mpr hk, hnew⟩⟩

/-- No key is repeated when a value is put under one. -/
theorem distinct_insert {es : Entries} (h : Value.ofEntries.distinct (es.map (·.1)) = true)
    (key v : Value) : Value.ofEntries.distinct ((es.insert key v).map (·.1)) = true := by
  rcases keys_insert es key v with hsame | ⟨hlast, hnew⟩
  · rw [hsame]
    exact h
  · rw [hlast, List.map_append]
    refine distinct_concat h fun k hk => ?_
    obtain ⟨e, he, rfl⟩ := List.mem_map.mp hk
    exact hnew e he

/-- What holds of the keys and values holds of them when a value is put under a key. -/
theorem forall_insert {P Q : Value → Prop} {es : Entries} (h : ∀ e ∈ es, P e.1 ∧ Q e.2)
    {key v : Value} (hkey : P key) (hv : Q v) : ∀ e ∈ es.insert key v, P e.1 ∧ Q e.2 := by
  induction es with
  | nil => exact List.forall_mem_singleton.mpr ⟨hkey, hv⟩
  | cons e es ih =>
      obtain ⟨k, old⟩ := e
      obtain ⟨hfirst, hrest⟩ := List.forall_mem_cons.mp h
      rw [insert]
      split
      · exact List.forall_mem_cons.mpr ⟨⟨hfirst.1, hv⟩, hrest⟩
      · exact List.forall_mem_cons.mpr ⟨hfirst, ih hrest⟩

/-- At most one entry is added. -/
theorem length_insert_le (es : Entries) (key v : Value) :
    (es.insert key v).length ≤ es.length + 1 := by
  rcases keys_insert es key v with hsame | ⟨hlast, _⟩
  · have hlength := congrArg List.length hsame
    rw [List.length_map, List.length_map] at hlength
    exact Nat.le_succ_of_le (Nat.le_of_eq hlength)
  · rw [hlast, List.length_append]
    exact Nat.le_refl _

end Entries

namespace Value

/-! ## Parts made anew -/

theorem isTagged_rebuilt (v : Value) : v.rebuilt.isTagged = v.isTagged := by
  cases v <;> rfl

/-- A tag is shown with some name. -/
theorem shownTag_ne_empty {name : String} (h : name ≠ "") : shownTag name ≠ "" := by
  unfold shownTag
  split
  · intro hempty
    have hlist := congrArg String.toList hempty
    rw [String.toList_ofList] at hlist
    cases hlist
  · exact h

theorem rebuiltItems_eq (vs : List Value) : rebuiltItems vs = vs.map rebuilt := by
  induction vs with
  | nil => rfl
  | cons v vs ih => rw [rebuiltItems, ih, List.map_cons]

/-- What holds of the entries that have been made, and of all keys and values made anew, holds of the
mapping. -/
theorem forall_rebuiltEntries {P : Value → Prop} {es made : Entries}
    (h : ∀ e ∈ es, P e.1.rebuilt ∧ P e.2.rebuilt)
    (hdistinct : ofEntries.distinct (made.map (·.1)) = true) (hmade : ∀ e ∈ made, P e.1 ∧ P e.2) :
    ofEntries.distinct ((rebuiltEntries made es).map (·.1)) = true ∧
      ∀ e ∈ rebuiltEntries made es, P e.1 ∧ P e.2 := by
  induction es generalizing made with
  | nil => exact ⟨hdistinct, hmade⟩
  | cons e es ih =>
      obtain ⟨hfirst, hrest⟩ := List.forall_mem_cons.mp h
      exact ih hrest (Entries.distinct_insert hdistinct _ _)
        (Entries.forall_insert hmade hfirst.1 hfirst.2)

/-- A value that is made anew has the property if the value has it. -/
theorem IsHereditary.rebuilt {P : Value → Prop} (hP : IsHereditary P) {v : Value} (h : P v) :
    P v.rebuilt := by
  induction v using inductionOnParts with
  | null => exact h
  | bool b => exact h
  | number n => exact h
  | string s => exact h
  | sequence vs ih =>
      rw [Value.rebuilt, rebuiltItems_eq]
      refine (hP.sequence_iff _).mpr fun w hw => ?_
      obtain ⟨v, hv, rfl⟩ := List.mem_map.mp hw
      exact ih v hv (hP.of_mem_sequence h hv)
  | mapping es ih =>
      rw [Value.rebuilt]
      -- the entries are put into an empty mapping one after the other
      refine (hP.mapping_iff _).mpr (forall_rebuiltEntries (fun e he => ?_) rfl nofun)
      have hmember := hP.of_mem_mapping h he
      exact ⟨(ih e he).1 hmember.1, (ih e he).2 hmember.2⟩
  | tagged name v ih =>
      rw [Value.rebuilt]
      exact hP.retagged h shownTag_ne_empty (ih (hP.of_tagged h))
        fun htagged => (isTagged_rebuilt v).symm.trans htagged

/-! ## Values that stay the same -/

/-- Different keys that stay the same make up a mapping as it was. -/
theorem rebuiltEntries_eq_append {es made : Entries}
    (h : ∀ e ∈ es, e.1.rebuilt = e.1 ∧ e.2.rebuilt = e.2)
    (hdistinct : ofEntries.distinct ((made ++ es).map (·.1)) = true) :
    rebuiltEntries made es = made ++ es := by
  induction es generalizing made with
  | nil => exact (List.append_nil made).symm
  | cons e es ih =>
      obtain ⟨⟨hkey, hvalue⟩, hrest⟩ := List.forall_mem_cons.mp h
      have hnew : ∀ f ∈ made, f.1.same e.1 = false := by
        rw [Entries.distinct_iff, List.pairwise_map, List.pairwise_append] at hdistinct
        exact fun f hf => hdistinct.2.2 f hf e List.mem_cons_self
      have hmade : made.insert e.1.rebuilt e.2.rebuilt = made ++ [e] := by
        rw [hkey, hvalue, Entries.insert_eq_append hnew]
      rw [rebuiltEntries, hmade, ih hrest (by simpa using hdistinct), List.append_assoc]
      rfl

theorem length_rebuiltEntries_le (es made : Entries) :
    (rebuiltEntries made es).length ≤ made.length + es.length := by
  induction es generalizing made with
  | nil => exact Nat.le_refl _
  | cons e es ih =>
      have hinsert := Entries.length_insert_le made e.1.rebuilt e.2.rebuilt
      have hrest := ih (made.insert e.1.rebuilt e.2.rebuilt)
      rw [rebuiltEntries, List.length_cons]
      omega

/-- Where no entry is lost, each of them has been made anew in its place. -/
theorem rebuiltEntries_eq_map {es made : Entries}
    (h : (rebuiltEntries made es).length = made.length + es.length) :
    rebuiltEntries made es = made ++ es.map fun e => (e.1.rebuilt, e.2.rebuilt) := by
  induction es generalizing made with
  | nil => exact (List.append_nil made).symm
  | cons e es ih =>
      have hrest := length_rebuiltEntries_le es (made.insert e.1.rebuilt e.2.rebuilt)
      rw [rebuiltEntries, List.length_cons] at h
      rcases Entries.keys_insert made e.1.rebuilt e.2.rebuilt with hsame | ⟨hlast, _⟩
      · have hlength := congrArg List.length hsame
        rw [List.length_map, List.length_map] at hlength
        omega
      · rw [rebuiltEntries, hlast]
        rw [hlast] at h
        rw [ih (by rw [h, List.length_append, List.length_singleton]; omega), List.append_assoc]
        rfl

/-- A sequence stays the same exactly if all items do. -/
theorem rebuilt_sequence_eq_iff {vs : List Value} :
    (sequence vs).rebuilt = sequence vs ↔ ∀ v ∈ vs, v.rebuilt = v := by
  rw [rebuilt, rebuiltItems_eq, sequence.injEq]
  constructor
  · intro h
    exact List.map_inj_left.mp (h.trans (List.map_id vs).symm)
  · intro h
    exact (List.map_congr_left h).trans (List.map_id vs)

/-- A mapping of different keys stays the same exactly if all keys and values do. -/
theorem rebuilt_mapping_eq_iff {es : Entries}
    (hdistinct : ofEntries.distinct (es.map (·.1)) = true) :
    (mapping es).rebuilt = mapping es ↔ ∀ e ∈ es, e.1.rebuilt = e.1 ∧ e.2.rebuilt = e.2 := by
  rw [rebuilt, mapping.injEq]
  constructor
  · intro h e he
    have hmap : es.map (fun e => (e.1.rebuilt, e.2.rebuilt)) = es.map id := by
      rw [List.map_id]
      exact (rebuiltEntries_eq_map (by rw [h, List.length_nil, Nat.zero_add])).symm.trans h
    exact Prod.ext_iff.mp (List.map_inj_left.mp hmap e he)
  · intro h
    exact rebuiltEntries_eq_append h hdistinct

/-- A value without repeated keys is the same when it is made anew exactly if all its tags are shown
with their names. -/
theorem IsProper.rebuilt_eq_self_iff {v : Value} (h : v.IsProper) :
    v.rebuilt = v ↔ ∀ name ∈ v.tagNames, shownTag name = name := by
  induction h with
  | null => exact iff_of_true rfl nofun
  | bool b => exact iff_of_true rfl nofun
  | number => exact iff_of_true rfl nofun
  | string s => exact iff_of_true rfl nofun
  | sequence _ ih =>
      rw [rebuilt_sequence_eq_iff]
      constructor
      · intro heach name hname
        obtain ⟨v, hv, hname⟩ := mem_tagNames_sequence.mp hname
        exact (ih v hv).mp (heach v hv) name hname
      · intro hshown v hv
        exact (ih v hv).mpr fun name hname =>
          hshown name (mem_tagNames_sequence.mpr ⟨v, hv, hname⟩)
  | mapping hdistinct _ _ ihkeys ihvalues =>
      rw [rebuilt_mapping_eq_iff hdistinct]
      constructor
      · intro heach name hname
        obtain ⟨e, he, hname | hname⟩ := mem_tagNames_mapping.mp hname
        · exact (ihkeys e he).mp (heach e he).1 name hname
        · exact (ihvalues e he).mp (heach e he).2 name hname
      · intro hshown e he
        refine ⟨(ihkeys e he).mpr fun name hname => ?_, (ihvalues e he).mpr fun name hname => ?_⟩
        · exact hshown name (mem_tagNames_mapping.mpr ⟨e, he, .inl hname⟩)
        · exact hshown name (mem_tagNames_mapping.mpr ⟨e, he, .inr hname⟩)
  | @tagged name v _ _ _ ih =>
      rw [rebuilt, tagged.injEq, ih, tagNames, List.forall_mem_cons]

end Value

end OperatorBundle.Yaml
