import OperatorBundle.Proofs.Yaml.Access

/-!
# Changing a part of a document

`Value.alter` changes the value some steps away and `Value.mapEntries` the entries of a mapping, both
under the tags that are there.  Changes one after the other in the same place are one change
(`alter_alter`), a change further inside is one of the part around it (`alter_append`), and what lies
another way is not touched (`follow?_alter_of_ne`).
-/

namespace OperatorBundle.Yaml

namespace Value

/-! ## The entries under tags -/

/-- Tags are kept, however often the value under them is replaced. -/
theorem underTags_underTags (v : Value) (entries : Entries) (new : Value) :
    (v.underTags (mapping entries)).underTags new = v.underTags new := by
  induction v using untagged.induct with
  | case1 name v ih => exact congrArg (tagged name) ih
  | case2 v hplain =>
      rw [underTags_of_ne hplain, underTags_of_ne hplain]
      rfl

/-- Putting back the entries that are there. -/
theorem underTags_mapping {v : Value} {entries : Entries} (h : v.asMapping? = some entries) :
    v.underTags (mapping entries) = v := by
  rw [← asMapping?_eq_some_iff.mp h, underTags_untagged]

/-- Putting back the items that are there. -/
theorem underTags_sequence {v : Value} {items : List Value} (h : v.asSequence? = some items) :
    v.underTags (sequence items) = v := by
  rw [← asSequence?_eq_some_iff.mp h, underTags_untagged]

/-- Changes the entries, if this is a mapping with tags or without. -/
def mapEntries (change : Entries → Entries) (v : Value) : Value :=
  match v.asMapping? with
  | some entries => v.underTags (mapping (change entries))
  | none => v

/-- A change of entries stays under the tags of the mapping. -/
theorem mapEntries_eq {v : Value} {entries : Entries} (h : v.asMapping? = some entries)
    (change : Entries → Entries) :
    v.mapEntries change = v.underTags (mapping (change entries)) := by
  rw [mapEntries, h]

/-- A change that puts something under a key. -/
theorem mapEntries_eq_set {v x : Value} {entries : Entries} (h : v.asMapping? = some entries)
    {change : Entries → Entries} {key : String} (hset : change entries = entries.set key x) :
    v.mapEntries change = v.mapEntries (·.set key x) := by
  rw [mapEntries_eq h, mapEntries_eq h, hset]

/-- The entries after a change are the changed entries. -/
theorem asMapping?_mapEntries (change : Entries → Entries) (v : Value) :
    (v.mapEntries change).asMapping? = v.asMapping?.map change := by
  cases h : v.asMapping? with
  | none => simp [mapEntries, h]
  | some entries => simp [mapEntries, h]

/-- Two changes of entries are one change. -/
theorem mapEntries_mapEntries (first second : Entries → Entries) (v : Value) :
    (v.mapEntries first).mapEntries second = v.mapEntries (second ∘ first) := by
  cases h : v.asMapping? with
  | none => simp [mapEntries, h]
  | some entries => simp [mapEntries, h, underTags_underTags]

theorem asSequence?_underTags (v : Value) (items : List Value) :
    (v.underTags (.sequence items)).asSequence? = some items := by
  induction v using untagged.induct with
  | case1 name v ih => exact ih
  | case2 v hplain =>
      rw [underTags_of_ne hplain]
      rfl

/-! ## One step -/

/-- An item that is set stands in its position of the sequence. -/
theorem asSequence?_setChild (v : Value) (position : Nat) (child : Value) :
    (v.setChild (.index position) child).asSequence? =
      v.asSequence?.map (·.set position child) := by
  cases h : v.asSequence? with
  | none => simp [setChild, h]
  | some items => simp [setChild, h, asSequence?_underTags]

/-- The part that was set is found at its step. -/
theorem child?_setChild {v : Value} {step : Step} {old : Value} (h : v.child? step = some old)
    (child : Value) : (v.setChild step child).child? step = some child := by
  cases step with
  | key key => exact child?_setChild_self h child
  | index position =>
      rcases Option.bind_eq_some_iff.mp h with ⟨items, hitems, hold⟩
      have hposition := (List.getElem?_eq_some_iff.mp hold).1
      simp [child?, asSequence?_setChild, hitems, hposition]

/-- No value is a mapping and a sequence. -/
theorem asSequence?_of_asMapping? {v : Value} {entries : Entries} (h : v.asMapping? = some entries) :
    v.asSequence? = none := by
  rw [asSequence?, asMapping?_eq_some_iff.mp h]

theorem asMapping?_of_asSequence? {v : Value} {items : List Value} (h : v.asSequence? = some items) :
    v.asMapping? = none := by
  cases hentries : v.asMapping? with
  | none => rfl
  | some entries =>
      rw [asSequence?_of_asMapping? hentries] at h
      cases h

/-- What is put one step away makes no difference to any other step. -/
theorem child?_setChild_of_ne (v : Value) {step other : Step} (h : step ≠ other) (child : Value) :
    (v.setChild step child).child? other = v.child? other := by
  -- keys and positions do not meet: a value is not both a mapping and a sequence
  cases step with
  | key key =>
      cases hentries : v.asMapping? with
      | none => simp [setChild, hentries]
      | some entries =>
          have hset : (v.setChild (.key key) child).asMapping? = some (entries.set key child) := by
            rw [asMapping?_setChild, hentries, Option.map_some]
          cases other with
          | key other =>
              have hne : key ≠ other := fun hsame => h (hsame ▸ rfl)
              simp [child?, hset, hentries, Entries.get?_set_of_ne entries hne]
          | index position =>
              simp [child?, asSequence?_of_asMapping? hset, asSequence?_of_asMapping? hentries]
  | index position =>
      cases hitems : v.asSequence? with
      | none => simp [setChild, hitems]
      | some items =>
          have hset : (v.setChild (.index position) child).asSequence? =
              some (items.set position child) := by
            rw [asSequence?_setChild, hitems, Option.map_some]
          cases other with
          | key other => simp [child?, asMapping?_of_asSequence? hset, asMapping?_of_asSequence? hitems]
          | index other =>
              have hne : position ≠ other := fun hsame => h (hsame ▸ rfl)
              simp [child?, hset, hitems, List.getElem?_set_ne hne]

/-- Of two parts set at one step the second stays. -/
theorem setChild_setChild (v : Value) (step : Step) (first second : Value) :
    (v.setChild step first).setChild step second = v.setChild step second := by
  induction v using untagged.induct with
  | case1 name v ih => rw [setChild_tagged, setChild_tagged, setChild_tagged, ih]
  | case2 v hplain =>
      cases step with
      | key key =>
          cases h : v.asMapping? with
          | none => simp [setChild, h]
          | some entries =>
              have hset (child : Value) :
                  v.setChild (.key key) child = mapping (entries.set key child) := by
                simp only [setChild, h, underTags_of_ne hplain]
              rw [hset, hset]
              exact congrArg mapping (Entries.set_set entries key first second)
      | index position =>
          cases h : v.asSequence? with
          | none => simp [setChild, h]
          | some items =>
              have hset (child : Value) :
                  v.setChild (.index position) child = sequence (items.set position child) := by
                simp only [setChild, h, underTags_of_ne hplain]
              rw [hset, hset]
              exact congrArg sequence (List.set_set first)

end Value

/-! ## Under a key -/

namespace Entries

/-- Changes the value under a key, where there is one. -/
def adjust (entries : Entries) (key : String) (change : Value → Value) : Entries :=
  match entries.get? key with
  | some v => entries.set key (change v)
  | none => entries

/-- The mapping under a key with its entries changed.  Where nothing or null was found an empty one
is changed. -/
def ensured (change : Entries → Entries) : Option Value → Value
  | some v => if v.isNull then .mapping (change []) else v.mapEntries change
  | none => .mapping (change [])

/-- Changes the entries of the mapping under a key, and makes it where it is missing. -/
def ensure (entries : Entries) (key : String) (change : Entries → Entries) : Entries :=
  entries.set key (ensured change (entries.get? key))

end Entries

namespace Value

/-! ## Some steps away -/

/-- Changes the value some steps away, where there is one. -/
def alter (change : Value → Value) : List Step → Value → Value
  | [], v => change v
  | step :: steps, v =>
      match v.child? step with
      | some child => v.setChild step (alter change steps child)
      | none => v

/-- A change below a first step sets the changed part at that step. -/
theorem alter_cons {v child : Value} {step : Step} (h : v.child? step = some child)
    (change : Value → Value) (steps : List Step) :
    v.alter change (step :: steps) = v.setChild step (child.alter change steps) := by
  rw [alter, h]

/-- Only what is done to the value that is there counts. -/
theorem alter_congr {v old : Value} {steps : List Step} (h : v.follow? steps = some old)
    {first second : Value → Value} (hsame : first old = second old) :
    v.alter first steps = v.alter second steps := by
  induction steps generalizing v with
  | nil => exact (Option.some.inj h).symm ▸ hsame
  | cons step steps ih =>
      rcases Option.bind_eq_some_iff.mp h with ⟨child, hchild, hrest⟩
      rw [alter_cons hchild, alter_cons hchild, ih hrest]

/-- What lies further inside is changed with the part around it. -/
theorem alter_append (change : Value → Value) (outer inner : List Step) (v : Value) :
    v.alter change (outer ++ inner) = v.alter (alter change inner) outer := by
  induction outer generalizing v with
  | nil => rfl
  | cons step outer ih => simp only [List.cons_append, alter, ih]

/-- Two changes in the same place are one. -/
theorem alter_alter (first second : Value → Value) (steps : List Step) (v : Value) :
    (v.alter first steps).alter second steps = v.alter (second ∘ first) steps := by
  induction steps generalizing v with
  | nil => rfl
  | cons step steps ih =>
      cases h : v.child? step with
      | none => simp only [alter, h]
      | some child =>
          rw [alter_cons h, alter_cons h, alter_cons (child?_setChild h _), setChild_setChild, ih]

/-- A change under a key is one of the entries. -/
theorem alter_key (change : Value → Value) (key : String) (steps : List Step) (v : Value) :
    v.alter change (.key key :: steps) = v.mapEntries (·.adjust key (alter change steps)) := by
  cases hentries : v.asMapping? with
  | none => simp [alter, child?, mapEntries, hentries]
  | some entries =>
      rw [mapEntries_eq hentries]
      cases hchild : entries.get? key with
      | none =>
          simp [alter, child?, hentries, hchild, Entries.adjust, underTags_mapping hentries]
      | some child => simp [alter, child?, setChild, hentries, hchild, Entries.adjust]

/-- Following steps in a row is following the first ones, then the others. -/
theorem follow?_append (first second : List Step) (v : Value) :
    v.follow? (first ++ second) = (v.follow? first).bind (·.follow? second) := by
  induction first generalizing v with
  | nil => rfl
  | cons step first ih =>
      rw [List.cons_append, follow?, follow?]
      cases v.child? step with
      | none => rfl
      | some child => exact ih child

/-- After a change at some steps the changed part is found there. -/
theorem follow?_alter (change : Value → Value) (steps : List Step) (v : Value) :
    (v.alter change steps).follow? steps = (v.follow? steps).map change := by
  induction steps generalizing v with
  | nil => rfl
  | cons step steps ih =>
      cases h : v.child? step with
      | none => simp [alter, follow?, h]
      | some child =>
          rw [alter_cons h, follow?, follow?, child?_setChild h, h]
          exact ih child

/-- The way that parts from that to the change is as it was. -/
theorem follow?_alter_of_ne {step other : Step} (h : step ≠ other) (change : Value → Value)
    (outer below steps : List Step) (v : Value) :
    (v.alter change (outer ++ step :: below)).follow? (outer ++ other :: steps) =
      v.follow? (outer ++ other :: steps) := by
  rw [alter_append, follow?_append, follow?_append, follow?_alter]
  cases v.follow? outer with
  | none => rfl
  | some w =>
      -- the two ways part here
      rw [Option.map_some, Option.bind_some, Option.bind_some, follow?, follow?]
      cases hchild : w.child? step with
      | none => simp only [alter, hchild]
      | some child => rw [alter_cons hchild, child?_setChild_of_ne w h]

/-- Another value is put in place where there is one, by changing that to it. -/
theorem replace?_eq (new : Value) (steps : List Step) (v : Value) :
    v.replace? new steps = (v.follow? steps).map fun _ => v.alter (fun _ => new) steps := by
  induction steps generalizing v with
  | nil => rfl
  | cons step steps ih =>
      cases hchild : v.child? step with
      | none => simp [replace?, follow?, hchild]
      | some child =>
          rw [replace?, follow?, hchild, alter_cons hchild]
          cases hrest : child.follow? steps with
          | none => simp [ih, hrest]
          | some old => simp [ih, hrest]

/-- Putting a changed value in the place of the old one. -/
theorem replace?_eq_alter {v old : Value} {steps : List Step} (h : v.follow? steps = some old)
    (change : Value → Value) : v.replace? (change old) steps = some (v.alter change steps) := by
  have hsame : v.alter (fun _ => change old) steps = v.alter change steps := alter_congr h rfl
  rw [replace?_eq, h, Option.map_some, hsame]

end Value

end OperatorBundle.Yaml
