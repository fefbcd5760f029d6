import OperatorBundle.Proofs.Yaml.Alter
import OperatorBundle.Proofs.Yaml.Edit

/-!
# What becomes of a document

A `Change` relates what stood in a place to what stands there later.  `Entries.AreChanged` says of
the entries of a mapping that some fields have changed, each in its own way, and that all else is as
it was: the other entries, and the order of the keys, behind which come the fields that are new.
Changes of fields are put together to a change of the document around them by `Change.inMapping`,
`Change.inMade` and `Change.inFirst`.
-/

namespace OperatorBundle.Yaml

/-- What may become of the value in a place, in which there need not have been one. -/
abbrev Change := Option Value → Value → Prop

/-! ## Fields of a mapping -/

namespace Entries

/-- Have some fields of a mapping changed, and nothing else? -/
structure AreChanged (fields : List (String × Change)) (entries changed : Entries) : Prop where
  /-- The keys that were there are where they were, and behind them come the new ones. -/
  keys : changed.map (·.1) = entries.map (·.1) ++
    (fields.filter fun field => (entries.get? field.1).isNone).map fun field => .string field.1
  /-- An entry whose key is none of the fields is where it was. -/
  other : ∀ (position : Nat) entry, entries[position]? = some entry →
    (∀ field ∈ fields, entry.1 ≠ .string field.1) → changed[position]? = some entry
  /-- Other keys have their old values. -/
  get?_other : ∀ key, (∀ field ∈ fields, field.1 ≠ key) → changed.get? key = entries.get? key
  /-- Each of the fields has its new value. -/
  field : ∀ field ∈ fields, ∃ v, changed.get? field.1 = some v ∧ field.2 (entries.get? field.1) v

variable {fields : List (String × Change)} {entries changed : Entries} {key : String} {v : Value}

theorem isNone_get? (entries : Entries) (key : String) :
    (entries.get? key).isNone = !entries.any (isKey key ·.1) := by
  rw [get?, Option.isNone_map, ← Option.not_isSome, List.isSome_find?]

/-- Entries of other keys keep their places. -/
theorem getElem?_set_of_ne {position : Nat} {entry : Value × Value}
    (h : entries[position]? = some entry) (hne : entry.1 ≠ .string key) (v : Value) :
    (entries.set key v)[position]? = some entry := by
  induction entries generalizing position with
  | nil => cases h
  | cons first entries ih =>
      obtain ⟨k, old⟩ := first
      rw [set]
      cases position with
      | zero =>
          rw [List.getElem?_cons_zero] at h
          cases h
          rw [if_neg fun hk => hne (isKey_iff.mp hk)]
          rfl
      | succ position =>
          rw [List.getElem?_cons_succ] at h
          split
          · exact h
          · exact ih h

/-- Nothing has changed yet. -/
theorem AreChanged.refl (entries : Entries) : AreChanged [] entries entries where
  keys := (List.append_nil _).symm
  other _ _ h _ := h
  get?_other _ _ := rfl
  field _ h := absurd h List.not_mem_nil

/-- One field more has a new value. -/
theorem AreChanged.set (h : AreChanged fields entries changed)
    (hnew : ∀ field ∈ fields, field.1 ≠ key) {change : Change}
    (hchange : change (entries.get? key) v) :
    AreChanged (fields ++ [(key, change)]) entries (changed.set key v) where
  keys := by
    -- the key is none of those that have been added, so that it is added itself just if it was
    -- not there
    have hfresh : ((fields.filter fun field => (entries.get? field.1).isNone).map
        fun field => Value.string field.1).any (isKey key) = false := by
      rw [List.any_eq_false]
      intro k hk hkey
      obtain ⟨field, hfield, rfl⟩ := List.mem_map.mp hk
      exact hnew field (List.mem_of_mem_filter hfield) (Value.string.inj (isKey_iff.mp hkey))
    have hany : changed.any (isKey key ·.1) = entries.any (isKey key ·.1) := by
      rw [← Function.comp_def (isKey key) Prod.fst, ← List.any_map, ← List.any_map, h.keys,
        List.any_append, hfresh, Bool.or_false]
    rw [keys_set, hany, h.keys, List.filter_append, List.map_append, ← List.append_assoc]
    cases hfound : entries.any (isKey key ·.1) with
    | true => simp [isNone_get?, hfound]
    | false => simp [isNone_get?, hfound]
  other position entry hentry hne := by
    have hbefore : ∀ field ∈ fields, entry.1 ≠ .string field.1 := fun field hfield =>
      hne field (List.mem_append_left _ hfield)
    exact getElem?_set_of_ne (h.other position entry hentry hbefore) (hne (key, change) (by simp)) v
  get?_other other hother := by
    have hne : key ≠ other := hother (key, change) (by simp)
    rw [get?_set_of_ne changed hne v]
    exact h.get?_other other fun field hfield => hother field (List.mem_append_left _ hfield)
  field field hfield := by
    rcases List.mem_append.mp hfield with hfield | hfield
    · obtain ⟨w, hw, hchanged⟩ := h.field field hfield
      exact ⟨w, (get?_set_of_ne changed (hnew field hfield).symm v).trans hw, hchanged⟩
    · rw [List.mem_singleton.mp hfield]
      exact ⟨v, get?_set_self changed key v, hchange⟩

end Entries

/-! ## Putting changes together -/

namespace Change

open Entries (AreChanged)

/-- Whatever there was, it is now this. -/
def becomes (v : Value) : Change := fun _ new => new = v

/-- Fields of a mapping change.  The mapping keeps its tags. -/
def inMapping (fields : List (String × Change)) : Change := fun old new =>
  ∃ v entries changed, old = some v ∧ v.asMapping? = some entries ∧
    AreChanged fields entries changed ∧ new = v.underTags (.mapping changed)

/-- Fields of a mapping change, and where there was nothing or null they are put into a new one. -/
def inMade (fields : List (String × Change)) : Change := fun old new =>
  inMapping fields old new ∨
    (∀ v, old = some v → v.isNull = true) ∧
      ∃ changed, AreChanged fields [] changed ∧ new = .mapping changed

/-- The first item of a sequence changes.  The sequence keeps its tags and its other items. -/
def inFirst (change : Change) : Change := fun old new =>
  ∃ v first rest item, old = some v ∧ v.asSequence? = some (first :: rest) ∧
    change (some first) item ∧ new = v.underTags (.sequence (item :: rest))

variable {fields : List (String × Change)} {old : Option Value} {new : Value}

/-- A field of a mapping that has changed is found under its key. -/
theorem inMapping.child? (h : inMapping fields old new) {key : String} {change : Change}
    (hfield : (key, change) ∈ fields) :
    ∃ before after, new.child? (.key key) = some after ∧ change before after := by
  obtain ⟨v, entries, changed, _, _, hchanged, rfl⟩ := h
  obtain ⟨after, hafter, hchange⟩ := hchanged.field (key, change) hfield
  refine ⟨_, after, ?_, hchange⟩
  rw [Value.child?, Value.asMapping?_underTags]
  exact hafter

theorem inMade.child? (h : inMade fields old new) {key : String} {change : Change}
    (hfield : (key, change) ∈ fields) :
    ∃ before after, new.child? (.key key) = some after ∧ change before after := by
  rcases h with h | ⟨_, changed, hchanged, rfl⟩
  · exact h.child? hfield
  · obtain ⟨after, hafter, hchange⟩ := hchanged.field (key, change) hfield
    exact ⟨_, after, hafter, hchange⟩

theorem inFirst.child? {change : Change} (h : inFirst change old new) :
    ∃ before after, new.child? (.index 0) = some after ∧ change before after := by
  obtain ⟨v, first, rest, item, _, _, hchange, rfl⟩ := h
  refine ⟨_, item, ?_, hchange⟩
  rw [Value.child?, Value.asSequence?_underTags]
  rfl

/-! ## How changes come about -/

section

variable {v w : Value} {key : String} {change : Change}

theorem inMapping.refl {entries : Entries} (h : v.asMapping? = some entries) :
    inMapping [] (some v) v :=
  ⟨v, entries, entries, rfl, h, .refl entries, (Value.underTags_mapping h).symm⟩

/-- A field is put into a mapping that has changed in others. -/
theorem inMapping.set (h : inMapping fields (some v) w) (hnew : ∀ field ∈ fields, field.1 ≠ key)
    {x : Value} (hchange : change (v.child? (.key key)) x) :
    inMapping (fields ++ [(key, change)]) (some v) (w.mapEntries (·.set key x)) := by
  obtain ⟨_, entries, changed, hv, hentries, hchanged, rfl⟩ := h
  cases hv
  rw [Value.child?, hentries] at hchange
  refine ⟨v, entries, changed.set key x, rfl, hentries, hchanged.set hnew hchange, ?_⟩
  rw [Value.mapEntries_eq (Value.asMapping?_underTags v changed), Value.underTags_underTags]

/-- Fields that have not changed have their old values. -/
theorem inMapping.exists_entries (h : inMapping fields (some v) w)
    (hnew : ∀ field ∈ fields, field.1 ≠ key) :
    ∃ entries, w.asMapping? = some entries ∧ entries.get? key = v.child? (.key key) := by
  obtain ⟨_, entries, changed, hv, hentries, hchanged, rfl⟩ := h
  cases hv
  refine ⟨changed, Value.asMapping?_underTags v changed, ?_⟩
  rw [hchanged.get?_other key hnew, Value.child?, hentries]
  rfl

/-- A field is changed in a mapping that has changed in others. -/
theorem inMapping.alter (h : inMapping fields (some v) w) (hnew : ∀ field ∈ fields, field.1 ≠ key)
    {child : Value} (hchild : v.child? (.key key) = some child) (f : Value → Value)
    (steps : List Step) (hchange : change (some child) (child.alter f steps)) :
    inMapping (fields ++ [(key, change)]) (some v) (w.alter f (.key key :: steps)) := by
  obtain ⟨entries, hentries, hget⟩ := h.exists_entries hnew
  have hset : entries.adjust key (Value.alter f steps) = entries.set key (child.alter f steps) := by
    rw [Entries.adjust, hget, hchild]
  rw [Value.alter_key, Value.mapEntries_eq_set hentries hset]
  exact h.set hnew (hchild ▸ hchange)

/-- One field of a mapping changes when it is altered. -/
theorem inMapping_alter {child : Value} (hchild : v.child? (.key key) = some child) (f : Value → Value)
    (steps : List Step) (hchange : change (some child) (child.alter f steps)) :
    inMapping [(key, change)] (some v) (v.alter f (.key key :: steps)) := by
  obtain ⟨entries, hentries, _⟩ := Option.bind_eq_some_iff.mp hchild
  exact (inMapping.refl hentries).alter (by simp) hchild f steps hchange

/-- Where there is a mapping, null or nothing, a mapping with the new fields can be made. -/
theorem inMade_ensured {change : Entries → Entries} (hchange : ∀ es, AreChanged fields es (change es))
    (hroom : ∀ v, old = some v → v.isNull = true ∨ ∃ es, v.asMapping? = some es) :
    inMade fields old (Entries.ensured change old) := by
  cases old with
  | none =>
      refine .inr ⟨?_, change [], hchange [], rfl⟩
      intro v hv
      cases hv
  | some v =>
      cases hnull : v.isNull with
      | true =>
          refine .inr ⟨?_, change [], hchange [], if_pos hnull⟩
          intro v' hv'
          cases hv'
          exact hnull
      | false =>
          obtain ⟨es, hes⟩ := (hroom v rfl).resolve_left (by simp [hnull])
          refine .inl ⟨v, es, change es, rfl, hes, hchange es, ?_⟩
          rw [Entries.ensured, hnull]
          exact Value.mapEntries_eq hes change

/-- A mapping is made in a field of a mapping that has changed in others. -/
theorem inMapping.ensure (h : inMapping fields (some v) w)
    (hnew : ∀ field ∈ fields, field.1 ≠ key) {made : List (String × Change)}
    {change : Entries → Entries} (hchange : ∀ es, AreChanged made es (change es))
    (hroom : ∀ u, v.child? (.key key) = some u → u.isNull = true ∨ ∃ es, u.asMapping? = some es) :
    inMapping (fields ++ [(key, inMade made)]) (some v) (w.mapEntries (·.ensure key change)) := by
  obtain ⟨entries, hentries, hget⟩ := h.exists_entries hnew
  have hset : entries.ensure key change =
      entries.set key (Entries.ensured change (v.child? (.key key))) := by
    rw [Entries.ensure, hget]
  rw [Value.mapEntries_eq_set hentries hset]
  exact h.set hnew (inMade_ensured hchange hroom)

/-- The first item of a sequence changes when it is altered. -/
theorem inFirst_alter {first : Value} {rest : List Value}
    (hitems : v.asSequence? = some (first :: rest)) (f : Value → Value) (steps : List Step)
    (hchange : change (some first) (first.alter f steps)) :
    inFirst change (some v) (v.alter f (.index 0 :: steps)) := by
  have hfirst : v.child? (.index 0) = some first := by
    rw [Value.child?, hitems]
    rfl
  refine ⟨v, first, rest, first.alter f steps, rfl, hitems, hchange, ?_⟩
  rw [Value.alter_cons hfirst, Value.setChild, hitems]
  rfl

end

end Change

end OperatorBundle.Yaml
