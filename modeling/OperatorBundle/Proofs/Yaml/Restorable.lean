import OperatorBundle.Proofs.Yaml.Proper
import OperatorBundle.Proofs.Yaml.Tag
import OperatorBundle.Yaml.Layout.Block

/-!
# Values that can be restored

Not every value that is read can be written, or is read again as it was.  What stands in the way is
nesting, names of tags, and keys of mappings with one entry; `IsRestorable` says that nothing does.
-/

namespace OperatorBundle.Yaml

namespace Value

/-! ## Tags -/

mutual

/-- The names of all tags in a value. -/
def tagNames : Value → List String
  | sequence vs => tagNamesOfItems vs
  | mapping es => tagNamesOfEntries es
  | tagged name v => name :: v.tagNames
  | _ => []
termination_by structural v => v

/-- The names of the tags in the items of a sequence. -/
def tagNamesOfItems : List Value → List String
  | [] => []
  | v :: vs => v.tagNames ++ tagNamesOfItems vs
termination_by structural vs => vs

/-- The names of the tags in the entries of a mapping. -/
def tagNamesOfEntries : List (Value × Value) → List String
  | [] => []
  | (k, v) :: es => k.tagNames ++ v.tagNames ++ tagNamesOfEntries es
termination_by structural es => es

end

theorem mem_tagNames_sequence {vs : List Value} {name : String} :
    name ∈ (sequence vs).tagNames ↔ ∃ v ∈ vs, name ∈ v.tagNames := by
  have heq : (sequence vs).tagNames = vs.flatMap tagNames := by
    show tagNamesOfItems vs = vs.flatMap tagNames
    induction vs with
    | nil => rfl
    | cons v vs ih => rw [tagNamesOfItems, ih, List.flatMap_cons]
  rw [heq, List.mem_flatMap]

theorem mem_tagNames_mapping {es : Entries} {name : String} :
    name ∈ (mapping es).tagNames ↔ ∃ e ∈ es, name ∈ e.1.tagNames ∨ name ∈ e.2.tagNames := by
  have heq : (mapping es).tagNames = es.flatMap fun e => e.1.tagNames ++ e.2.tagNames := by
    show tagNamesOfEntries es = es.flatMap fun e => e.1.tagNames ++ e.2.tagNames
    induction es with
    | nil => rfl
    | cons e es ih => rw [tagNamesOfEntries, ih, List.flatMap_cons]
  simp only [heq, List.mem_flatMap, List.mem_append]

/-- All tags of a proper value have a name. -/
theorem IsProper.ne_empty_of_mem_tagNames {v : Value} (h : v.IsProper) {name : String}
    (hname : name ∈ v.tagNames) : name ≠ "" := by
  induction h with
  | null => exact absurd hname List.not_mem_nil
  | bool b => exact absurd hname List.not_mem_nil
  | number => exact absurd hname List.not_mem_nil
  | string s => exact absurd hname List.not_mem_nil
  | sequence _ ih =>
      rcases mem_tagNames_sequence.mp hname with ⟨v, hv, hname⟩
      exact ih v hv hname
  | mapping _ _ _ ihkeys ihvalues =>
      rcases mem_tagNames_mapping.mp hname with ⟨e, he, hname | hname⟩
      · exact ihkeys e he hname
      · exact ihvalues e he hname
  | tagged hne _ _ ih =>
      rcases List.mem_cons.mp hname with rfl | hname
      · exact hne
      · exact ih hname

/-- A tag is restored if it is written as it is and ends where it should. -/
def isFaithfulTag (name : String) : Bool :=
  name == "!" ||
    (name.toList.head? != some '!' && name.toList.all fun c => c != ',' && c != '[' && c != ']')

/-! ## Nesting -/

mutual

/-- How deep collections are nested in a value. -/
def nesting : Value → Nat
  | sequence vs => nestingOfItems vs + 1
  | mapping es => nestingOfEntries es + 1
  | tagged _ v => v.nesting
  | _ => 0
termination_by structural v => v

/-- How deep collections are nested in the items of a sequence. -/
def nestingOfItems : List Value → Nat
  | [] => 0
  | v :: vs => max v.nesting (nestingOfItems vs)
termination_by structural vs => vs

/-- How deep collections are nested in the entries of a mapping. -/
def nestingOfEntries : List (Value × Value) → Nat
  | [] => 0
  | (k, v) :: es => max (max k.nesting v.nesting) (nestingOfEntries es)
termination_by structural es => es

end

theorem nesting_le_of_mem {vs : List Value} {v : Value} (h : v ∈ vs) :
    v.nesting ≤ nestingOfItems vs := by
  induction vs with
  | nil => exact absurd h List.not_mem_nil
  | cons w vs ih =>
      rw [nestingOfItems]
      rcases List.mem_cons.mp h with rfl | h
      · exact Nat.le_max_left _ _
      · exact Nat.le_trans (ih h) (Nat.le_max_right _ _)

theorem nesting_le_of_mem_entries {es : Entries} {e : Value × Value} (h : e ∈ es) :
    e.1.nesting ≤ nestingOfEntries es ∧ e.2.nesting ≤ nestingOfEntries es := by
  induction es with
  | nil => exact absurd h List.not_mem_nil
  | cons f es ih =>
      rcases f with ⟨k, v⟩
      rw [nestingOfEntries]
      rcases List.mem_cons.mp h with rfl | h
      · simp only
        omega
      · have hle := ih h
        omega

/-! ## Keys of mappings with one entry -/

mutual

/-- The keys of the mappings that have one entry and no tag; `free` says that there is no tag on the
value itself. -/
def singleKeys (free : Bool) : Value → List Value
  | sequence vs => singleKeysOfItems vs
  | mapping es => (if free && es.length == 1 then es.map (·.1) else []) ++ singleKeysOfEntries es
  | tagged _ v => v.singleKeys false
  | _ => []
termination_by structural v => v

/-- Such keys in the items of a sequence. -/
def singleKeysOfItems : List Value → List Value
  | [] => []
  | v :: vs => v.singleKeys true ++ singleKeysOfItems vs
termination_by structural vs => vs

/-- Such keys in the entries of a mapping. -/
def singleKeysOfEntries : List (Value × Value) → List Value
  | [] => []
  | (k, v) :: es => k.singleKeys true ++ v.singleKeys true ++ singleKeysOfEntries es
termination_by structural es => es

end

/-- Can this be the key of a mapping with one entry and no tag? -/
def isSingleKey : Value → Bool
  | tagged .. => false
  | mapping [_] => false
  | _ => true

/-- Is a value written, and read again as it was? -/
structure IsRestorable (v : Value) : Prop where
  shallow : v.nesting ≤ depthLimit
  tags : ∀ name ∈ v.tagNames, isFaithfulTag name = true
  keys : ∀ k ∈ v.singleKeys true, k.isSingleKey = true

instance (v : Value) : Decidable v.IsRestorable :=
  decidable_of_iff (v.nesting ≤ depthLimit ∧ (∀ name ∈ v.tagNames, isFaithfulTag name = true) ∧
      ∀ k ∈ v.singleKeys true, k.isSingleKey = true)
    ⟨fun h => ⟨h.1, h.2.1, h.2.2⟩, fun h => ⟨h.shallow, h.tags, h.keys⟩⟩

/-! ## What can be written -/

theorem areWritable_eq (vs : List Value) : Layout.areWritable vs = vs.all (Layout.isWritable true) := by
  induction vs with
  | nil => rfl
  | cons v vs ih => rw [Layout.areWritable, ih, List.all_cons]

theorem entriesAreWritable_eq (single : Bool) (es : Entries) :
    Layout.entriesAreWritable single es = es.all fun e =>
      (!single || e.1.isSingleKey) && (Layout.isWritable true e.1 && Layout.isWritable true e.2) := by
  induction es with
  | nil => rfl
  | cons e es ih =>
      rcases e with ⟨k, v⟩
      rw [List.all_cons, ← ih, ← Bool.and_assoc]
      cases k with
      | mapping fs => rcases fs with _ | ⟨f, _ | ⟨g, fs⟩⟩ <;> cases single <;> rfl
      | _ => cases single <;> rfl

theorem singleKeysOfItems_eq (vs : List Value) :
    singleKeysOfItems vs = vs.flatMap (singleKeys true) := by
  induction vs with
  | nil => rfl
  | cons v vs ih => rw [singleKeysOfItems, ih, List.flatMap_cons]

theorem singleKeysOfEntries_eq (es : Entries) :
    singleKeysOfEntries es = es.flatMap fun e => e.1.singleKeys true ++ e.2.singleKeys true := by
  induction es with
  | nil => rfl
  | cons e es ih => rw [singleKeysOfEntries, ih, List.flatMap_cons]

/-- A proper value can be written if, and only if, no key stands in the way. -/
theorem isWritable_iff {v : Value} (h : v.IsProper) (free : Bool)
    (hfree : free = false → v.isTagged = false) :
    Layout.isWritable free v = true ↔ ∀ k ∈ v.singleKeys free, k.isSingleKey = true := by
  have hnone : ∀ k ∈ ([] : List Value), k.isSingleKey = true := fun k hk =>
    absurd hk List.not_mem_nil
  induction h generalizing free with
  | null => exact ⟨fun _ => hnone, fun _ => rfl⟩
  | bool b => exact ⟨fun _ => hnone, fun _ => rfl⟩
  | number => exact ⟨fun _ => hnone, fun _ => rfl⟩
  | string s => exact ⟨fun _ => hnone, fun _ => rfl⟩
  | @sequence vs _ ih =>
      rw [Layout.isWritable, singleKeys, areWritable_eq, singleKeysOfItems_eq, List.all_eq_true,
        List.forall_mem_flatMap]
      exact forall₂_congr fun v hv => ih v hv true fun hfalse => by cases hfalse
  | @mapping es _ _ _ ihkeys ihvalues =>
      have hentry : ∀ e ∈ es, ((Layout.isWritable true e.1 && Layout.isWritable true e.2) = true ↔
          ∀ k ∈ e.1.singleKeys true ++ e.2.singleKeys true, k.isSingleKey = true) := by
        intro e he
        have hkey := ihkeys e he true fun hfalse => by cases hfalse
        have hvalue := ihvalues e he true fun hfalse => by cases hfalse
        rw [Bool.and_eq_true, List.forall_mem_append]
        exact and_congr hkey hvalue
      -- a tag on the mapping lifts the condition on its own entries, not the one below them
      have hsingle : ∀ single : Bool, (∀ e ∈ es, (!single || e.1.isSingleKey) = true) ↔
          ∀ k ∈ (if single then es.map (·.1) else []), k.isSingleKey = true := by
        intro single
        cases single <;> simp
      rw [Layout.isWritable, singleKeys, entriesAreWritable_eq, singleKeysOfEntries_eq,
        List.all_eq_true, List.forall_mem_append, ← hsingle, List.forall_mem_flatMap,
        ← forall₂_congr hentry]
      simp only [Bool.and_eq_true, forall_and]
  | tagged _ htagged _ ih =>
      cases free with
      | false => exact absurd (hfree rfl) (by simp [isTagged])
      | true => exact ih false fun _ => htagged

/-! ## What follows of faithful tags -/

theorem isReadableTag_of_isFaithfulTag {name : String} (h : isFaithfulTag name = true) :
    Property.isReadableTag name = true := by
  unfold isFaithfulTag at h
  unfold Property.isReadableTag Layout.tagBody
  rcases Bool.or_eq_true_iff.mp h with h | h
  · rw [beq_iff_eq.mp h]
    decide
  · rw [Bool.and_eq_true] at h
    split
    · rename_i hname
      rw [hname] at h
      exact absurd h.1 (by simp)
    · exact h.2

end Value

end OperatorBundle.Yaml
