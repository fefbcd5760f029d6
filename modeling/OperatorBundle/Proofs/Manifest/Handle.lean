import OperatorBundle.Manifest.Document
import OperatorBundle.Proofs.Yaml.Alter

/-!
# Reading and writing at a path

The handle on the value at a path is what is written through.  It is found step by step, as the value
is (`handle?_eq`), and what is put there is all that changes: the document around it stays the same,
tags and the order of entries included (`IsReplaced`).
-/

namespace OperatorBundle

namespace Yaml

/-! ## Handles -/

/-- A handle on a part of a document: the part, and the document with something else put there. -/
structure Handle where
  held : Value
  put : Value → Value

/-- The handle on what is one step further inside. -/
def Handle.enter? (handle : Handle) : Step → Option Handle
  | .key name => do
      let entries ← handle.held.asMapping?
      let v ← entries.get? name
      return {
        held := v
        put := fun new => handle.put (handle.held.underTags (.mapping (entries.set name new))) }
  | .index position => do
      let items ← handle.held.asSequence?
      let v ← items[position]?
      return {
        held := v
        put := fun new => handle.put (handle.held.underTags (.sequence (items.set position new))) }

/-- The handle on the value at a path, which is entered step by step from the whole document. -/
def Value.handle? (root : Value) (path : String) : Option Handle := do
  (← Path.steps? path).foldlM Handle.enter? { held := root, put := id }

/-! ## The document around a part -/

/-- Is the second value the first with `new` in the place of `old`, which is found some steps away?
Nothing else differs: neither tags nor other entries and items, nor their order. -/
inductive IsReplaced (old new : Value) : List Step → Value → Value → Prop where
  | here : IsReplaced old new [] old new
  | entry {steps : List Step} {v w : Value} {front : Entries} {key : String} (back : Entries)
      (hfirst : front.get? key = none) (inside : IsReplaced old new steps v w) :
      IsReplaced old new (.key key :: steps) (.mapping (front ++ (.string key, v) :: back))
        (.mapping (front ++ (.string key, w) :: back))
  | item {steps : List Step} {v w : Value} (front back : List Value)
      (inside : IsReplaced old new steps v w) :
      IsReplaced old new (.index front.length :: steps) (.sequence (front ++ v :: back))
        (.sequence (front ++ w :: back))
  | tagged {step : Step} {steps : List Step} {v w : Value} (name : String)
      (inside : IsReplaced old new (step :: steps) v w) :
      IsReplaced old new (step :: steps) (.tagged name v) (.tagged name w)

namespace Value

/-- The tags around a value, from outside. -/
def tags : Value → List String
  | tagged name v => name :: v.tags
  | _ => []

/-- The keys of a mapping, with tags or without, in their order. -/
def keys? (v : Value) : Option (List Value) := v.asMapping?.map (·.map Prod.fst)

end Value

/-- Do two paths part?  Neither leads on from where the other ends. -/
def Path.Part (path other : String) : Prop :=
  ∃ steps others, Path.steps? path = some steps ∧ Path.steps? other = some others ∧
    ¬ steps <+: others ∧ ¬ others <+: steps

namespace Entries

/-- Where a value is found under a key the entries are those in front, this one and those behind it,
and another value is put between the same ones. -/
theorem exists_split_of_get? {entries : Entries} {key : String} {v : Value}
    (h : entries.get? key = some v) : ∃ front back : Entries,
      entries = front ++ (.string key, v) :: back ∧ front.get? key = none ∧
        ∀ new, entries.set key new = front ++ (.string key, new) :: back := by
  induction entries with
  | nil => cases h
  | cons entry entries ih =>
      obtain ⟨k, old⟩ := entry
      by_cases hk : isKey key k = true
      · have hold : old = v := by simpa [get?, hk] using h
        rw [isKey_iff] at hk
        subst hk hold
        refine ⟨[], entries, rfl, rfl, ?_⟩
        intro new
        simp [set, isKey]
      · have hrest : get? entries key = some v := by simpa [get?, hk] using h
        obtain ⟨front, back, rfl, hfirst, hset⟩ := ih hrest
        refine ⟨(k, old) :: front, back, rfl, ?_, ?_⟩
        · simpa [get?, hk] using hfirst
        · intro new
          rw [set, if_neg hk, hset]
          rfl

/-- An entry behind others is found if none of these has its key. -/
theorem get?_append_of_none {front : Entries} {key : String} (h : front.get? key = none) (v : Value)
    (back : Entries) : get? (front ++ (.string key, v) :: back) key = some v := by
  have hself : isKey key (.string key) = true := isKey_iff.mpr rfl
  rw [get?, List.find?_append, Option.map_eq_none_iff.mp h, Option.none_or, List.find?_cons, hself]
  rfl

end Entries

/-- The same of the items of a sequence. -/
theorem exists_split_of_getElem? {items : List Value} {position : Nat} {v : Value}
    (h : items[position]? = some v) : ∃ front back : List Value,
      items = front ++ v :: back ∧ front.length = position ∧
        ∀ new, items.set position new = front ++ new :: back := by
  obtain ⟨hposition, rfl⟩ := List.getElem?_eq_some_iff.mp h
  refine ⟨items.take position, items.drop (position + 1), ?_, ?_, ?_⟩
  · rw [← List.drop_eq_getElem_cons hposition, List.take_append_drop]
  · rw [List.length_take]
    omega
  · intro new
    rw [List.set_eq_take_append_cons_drop, if_pos hposition]

namespace IsReplaced

variable {old new v w : Value} {step : Step} {steps : List Step}

/-- Where the same value is put nothing changes. -/
theorem eq_of_same (h : IsReplaced old old steps v w) : w = v := by
  induction h with
  | here => rfl
  | entry back hfirst inside ih => rw [ih]
  | item front back inside ih => rw [ih]
  | tagged name inside ih => rw [ih]

/-- Replacing a part below leaves a value's own tags. -/
theorem tags_eq (h : IsReplaced old new (step :: steps) v w) : w.tags = v.tags := by
  generalize hway : step :: steps = way at h
  induction h with
  | here => cases hway
  | entry back hfirst inside ih => rfl
  | item front back inside ih => rfl
  | tagged name inside ih => exact congrArg (name :: ·) (ih hway)

/-- Replacing a part below leaves a mapping's keys and their order. -/
theorem keys?_eq (h : IsReplaced old new (step :: steps) v w) : w.keys? = v.keys? := by
  generalize hway : step :: steps = way at h
  induction h with
  | here => cases hway
  | entry back hfirst inside ih =>
      simp [Value.keys?, Value.asMapping?, Value.untagged]
  | item front back inside ih => rfl
  | tagged name inside ih => exact ih hway

/-- One step further the one value is found with the other replaced. -/
theorem exists_child (h : IsReplaced old new (step :: steps) v w) :
    ∃ v' w', v.child? step = some v' ∧ w.child? step = some w' ∧ IsReplaced old new steps v' w' := by
  generalize hway : step :: steps = way at h
  induction h with
  | here => cases hway
  | @entry _ v' w' front key back hfirst inside ih =>
      obtain ⟨rfl, rfl⟩ := List.cons.inj hway
      -- no entry in front has the key, so that it is this one that is found
      exact ⟨v', w', Entries.get?_append_of_none hfirst v' back,
        Entries.get?_append_of_none hfirst w' back, inside⟩
  | @item _ v' w' front back inside ih =>
      obtain ⟨rfl, rfl⟩ := List.cons.inj hway
      refine ⟨v', w', ?_, ?_, inside⟩
      · show (front ++ v' :: back)[front.length]? = some v'
        simp
      · show (front ++ w' :: back)[front.length]? = some w'
        simp
  | tagged name inside ih =>
      obtain ⟨v', w', hv, hw, hinside⟩ := ih hway
      rw [← Value.child?_tagged name] at hv hw
      exact ⟨v', w', hv, hw, hinside⟩

/-- Part of the way the one value is found with the other replaced. -/
theorem exists_follow? {outer inner : List Step} (h : IsReplaced old new (outer ++ inner) v w) :
    ∃ v' w', v.follow? outer = some v' ∧ w.follow? outer = some w' ∧
      IsReplaced old new inner v' w' := by
  induction outer generalizing v w with
  | nil => exact ⟨v, w, rfl, rfl, h⟩
  | cons step outer ih =>
      obtain ⟨v₁, w₁, hv, hw, hinside⟩ := exists_child h
      obtain ⟨v', w', hv', hw', hinner⟩ := ih hinside
      refine ⟨v', w', ?_, ?_, hinner⟩
      · rw [Value.follow?, hv]
        exact hv'
      · rw [Value.follow?, hw]
        exact hw'

/-- Replacing a child replaces what is replaced in it. -/
theorem of_setChild {child changed : Value} (h : v.child? step = some child)
    (hinside : IsReplaced old new steps child changed) :
    IsReplaced old new (step :: steps) v (v.setChild step changed) := by
  induction v using Value.untagged.induct with
  | case1 name v ih =>
      rw [Value.child?_tagged] at h
      rw [Value.setChild_tagged]
      exact .tagged name (ih h)
  | case2 v hplain =>
      -- without tags it is the mapping or the sequence itself that is split at the child
      cases step with
      | key key =>
          obtain ⟨entries, hentries, hget⟩ := Option.bind_eq_some_iff.mp h
          obtain ⟨front, back, hsplit, hfirst, hset⟩ := Entries.exists_split_of_get? hget
          have hv : v = .mapping (front ++ (.string key, child) :: back) := by
            rw [← hsplit, ← Value.underTags_of_ne hplain (.mapping entries),
              Value.underTags_mapping hentries]
          have hw : v.setChild (.key key) changed =
              .mapping (front ++ (.string key, changed) :: back) := by
            simp only [Value.setChild, hentries, Value.underTags_of_ne hplain, hset]
          rw [hw, hv]
          exact .entry back hfirst hinside
      | index position =>
          obtain ⟨items, hitems, hget⟩ := Option.bind_eq_some_iff.mp h
          obtain ⟨front, back, hsplit, rfl, hset⟩ := exists_split_of_getElem? hget
          have hv : v = .sequence (front ++ child :: back) := by
            rw [← hsplit, ← Value.underTags_of_ne hplain (.sequence items),
              Value.underTags_sequence hitems]
          have hw : v.setChild (.index front.length) changed =
              .sequence (front ++ changed :: back) := by
            simp only [Value.setChild, hitems, Value.underTags_of_ne hplain, hset]
          rw [hw, hv]
          exact .item front back hinside

/-- Changing what is some steps away replaces it. -/
theorem of_alter (h : v.follow? steps = some old) :
    IsReplaced old new steps v (v.alter (fun _ => new) steps) := by
  induction steps generalizing v with
  | nil =>
      cases h
      exact .here
  | cons step steps ih =>
      obtain ⟨child, hchild, hrest⟩ := Option.bind_eq_some_iff.mp h
      rw [Value.alter_cons hchild]
      exact of_setChild hchild (ih hrest)

end IsReplaced

/-! ## Entering a document -/

namespace Handle

/-- Entering a handle steps into the value it holds, and puts back through it. -/
theorem enter?_eq (handle : Handle) (step : Step) : handle.enter? step =
    (handle.held.child? step).map fun v =>
      { held := v, put := fun new => handle.put (handle.held.setChild step new) } := by
  cases step with
  | key name =>
      cases hentries : handle.held.asMapping? with
      | none => simp [enter?, Value.child?, hentries]
      | some entries =>
          cases hget : entries.get? name with
          | none => simp [enter?, Value.child?, hentries, hget]
          | some v => simp [enter?, Value.child?, Value.setChild, hentries, hget]
  | index position =>
      cases hitems : handle.held.asSequence? with
      | none => simp [enter?, Value.child?, hitems]
      | some items =>
          cases hget : items[position]? with
          | none => simp [enter?, Value.child?, hitems, hget]
          | some v => simp [enter?, Value.child?, Value.setChild, hitems, hget]

/-- Steps that are taken one after the other lead where they are followed to. -/
theorem foldlM_enter?_eq (steps : List Step) (handle : Handle) : steps.foldlM enter? handle =
    (handle.held.follow? steps).map fun v =>
      { held := v, put := fun new => handle.put (handle.held.alter (fun _ => new) steps) } := by
  induction steps generalizing handle with
  | nil => rfl
  | cons step steps ih =>
      rw [List.foldlM_cons, enter?_eq, Value.follow?]
      cases hchild : handle.held.child? step with
      | none => rfl
      | some child =>
          simp only [Option.map_some, Option.bind_eq_bind, Option.bind_some, ih,
            Value.alter_cons hchild]

end Handle

namespace Value

variable {path : String}

/-- The handle holds the value at the path and puts another there. -/
theorem handle?_eq {steps : List Step} (h : Path.steps? path = some steps) (root : Value) :
    root.handle? path = (root.follow? steps).map fun v =>
      { held := v, put := fun new => root.alter (fun _ => new) steps } := by
  rw [handle?, h]
  exact Handle.foldlM_enter?_eq steps { held := root, put := id }

/-- A handle holds what the lookup finds. -/
theorem held_handle? (root : Value) (path : String) :
    (root.handle? path).map Handle.held = root.lookup? path := by
  cases hsteps : Path.steps? path with
  | none => simp [handle?, lookup?, hsteps]
  | some steps =>
      rw [handle?_eq hsteps, lookup?_eq_follow? root hsteps, Option.map_map]
      exact Option.map_id'

/-- Putting into a handle is the assignment. -/
theorem put_handle? (root : Value) (path : String) (new : Value) :
    (root.handle? path).map (·.put new) = root.assign? path new := by
  cases hsteps : Path.steps? path with
  | none => simp [handle?, assign?, hsteps]
  | some steps =>
      rw [handle?_eq hsteps, assign?, hsteps, Option.map_map]
      exact (replace?_eq new steps root).symm

end Value

/-! ## Other paths -/

/-- Two ways of which neither leads on from the other's end part somewhere. -/
theorem exists_fork {steps others : List Step} (h : ¬ steps <+: others) (hback : ¬ others <+: steps) :
    ∃ outer step other inner rest, step ≠ other ∧ steps = outer ++ step :: inner ∧
      others = outer ++ other :: rest := by
  induction steps generalizing others with
  | nil => exact absurd List.nil_prefix h
  | cons step inner ih =>
      cases others with
      | nil => exact absurd List.nil_prefix hback
      | cons other rest =>
          by_cases hsame : step = other
          · subst hsame
            rw [List.cons_prefix_cons, not_and] at h hback
            obtain ⟨outer, a, b, inner', rest', hne, rfl, rfl⟩ := ih (h rfl) (hback rfl)
            exact ⟨step :: outer, a, b, inner', rest', hne, rfl, rfl⟩
          · exact ⟨[], step, other, inner, rest, hsame, rfl, rfl⟩

/-- A change at one path leaves what another path finds, where the two part. -/
theorem Value.lookup?_alter_of_part {path other : String} {steps : List Step}
    (hsteps : Path.steps? path = some steps) (h : Path.Part path other) (change : Value → Value)
    (root : Value) : (root.alter change steps).lookup? other = root.lookup? other := by
  obtain ⟨steps', others, hsteps', hothers, hprefix, hback⟩ := h
  obtain rfl : steps = steps' := Option.some.inj (hsteps.symm.trans hsteps')
  rw [lookup?_eq_follow? _ hothers, lookup?_eq_follow? _ hothers]
  obtain ⟨outer, step, other, inner, rest, hne, rfl, rfl⟩ := exists_fork hprefix hback
  exact follow?_alter_of_ne hne change outer inner rest root

end Yaml

/-! ## Reading and writing -/

namespace Manifest

open Yaml (Value Step Handle IsReplaced)
open Yaml.Path (steps?)

/-- The handle on the value at a path, which must be there. -/
def requireHandle (root : Value) (path source : String) : Except BundleError Handle :=
  demand source path (root.handle? path)

theorem map_demand {α β : Type} (f : α → β) (source path : String) (found : Option α) :
    (demand source path found).map f = demand source path (found.map f) := by
  cases found <;> rfl

variable {root : Value} {path : String} {steps : List Step}

/-- An assignment at a path that is found changes the value there. -/
theorem assign_eq (hsteps : steps? path = some steps) {old : Value}
    (h : root.follow? steps = some old) (source : String) (new : Value) :
    assign root path source new = .ok (root.alter (fun _ => new) steps) := by
  rw [assign, Value.assign?, hsteps, Option.bind_eq_bind, Option.bind_some, Value.replace?_eq, h]
  rfl

/-- There is a handle exactly if a value is found at the path; it holds that value, and to put another
there is to assign it.  What is missing is reported alike by all three.  Where a value is found, to
assign it changes nothing.  Another one that is assigned is found at the path from then on, and
nothing is left of it when something else is assigned; at the paths that part from this one the same
is found as before; and all of the document around it stays as it was, where every value on the
way keeps its tags and its keys in their order.  None of this asks that keys are unique. -/
theorem require_assign (root : Value) (path source : String) :
    (root.handle? path).map Handle.held = root.lookup? path ∧
    (requireHandle root path source).map Handle.held = require root path source ∧
    (∀ new, (requireHandle root path source).map (·.put new) = assign root path source new) ∧
    (root.lookup? path = none → ∀ new,
      assign root path source new = .error (.missingField source path)) ∧
    ∀ old, root.lookup? path = some old →
      assign root path source old = .ok root ∧
      ∀ new, ∃ changed, assign root path source new = .ok changed ∧
        changed.lookup? path = some new ∧
        (∀ last, assign changed path source last = assign root path source last) ∧
        (∀ other, Yaml.Path.Part path other → changed.lookup? other = root.lookup? other) ∧
        ∃ steps, steps? path = some steps ∧ IsReplaced old new steps root changed ∧
          ∀ outer step inner, steps = outer ++ step :: inner → ∃ before after,
            root.follow? outer = some before ∧ changed.follow? outer = some after ∧
            after.tags = before.tags ∧ after.keys? = before.keys? := by
  refine ⟨Value.held_handle? root path, ?_, ?_, ?_, ?_⟩
  · rw [requireHandle, map_demand, Value.held_handle?, require]
  · intro new
    rw [requireHandle, map_demand, Value.put_handle?, assign]
  · intro hmissing new
    rw [assign, ← Value.put_handle?]
    have hhandle : root.handle? path = none := by
      rwa [← Value.held_handle?, Option.map_eq_none_iff] at hmissing
    rw [hhandle]
    rfl
  · intro old hold
    obtain ⟨steps, hsteps, hfollow⟩ := Option.bind_eq_some_iff.mp hold
    constructor
    · have hsame : root.alter (fun _ => old) steps = root := (IsReplaced.of_alter hfollow).eq_of_same
      rw [assign_eq hsteps hfollow, hsame]
    · intro new
      have hfound : (root.alter (fun _ => new) steps).follow? steps = some new := by
        rw [Value.follow?_alter, hfollow, Option.map_some]
      have hreplaced : IsReplaced old new steps root (root.alter (fun _ => new) steps) :=
        .of_alter hfollow
      refine ⟨_, assign_eq hsteps hfollow source new, ?_, ?_, ?_, steps, hsteps, hreplaced, ?_⟩
      · rwa [Value.lookup?_eq_follow? _ hsteps]
      · intro last
        rw [assign_eq hsteps hfound, assign_eq hsteps hfollow, Value.alter_alter]
        rfl
      · intro other hother
        exact Value.lookup?_alter_of_part hsteps hother _ root
      · rintro outer step inner rfl
        obtain ⟨before, after, hbefore, hafter, hinner⟩ := hreplaced.exists_follow?
        exact ⟨before, after, hbefore, hafter, hinner.tags_eq, hinner.keys?_eq⟩

/-- An item behind tags, beside one that another path leads to, and a path that leads nowhere. -/
theorem require_assign_tagged :
    let root := Value.tagged "r" (.mapping [(.null, .null),
      (.string "spec", .tagged "s" (.mapping [(.string "items", .sequence [.bool true, .null])])),
      (.string "kind", .string "k")])
    ∃ changed, root.lookup? "spec.items[1]" = some .null ∧
      assign root "spec.items[1]" "t" (.string "new") = .ok changed ∧
      changed.lookup? "spec.items[1]" = some (.string "new") ∧
      changed.lookup? "spec.items[0]" = some (.bool true) ∧
      changed.tags = ["r"] ∧ changed.keys? = some [.null, .string "spec", .string "kind"] ∧
      assign root "spec.items.kind" "t" .null = .error (.missingField "t" "spec.items.kind") := by
  intro root
  have hsteps : steps? "spec.items[1]" = some [.key "spec", .key "items", .index 1] := by
    decide +kernel
  have hothers : steps? "spec.items[0]" = some [.key "spec", .key "items", .index 0] := by
    decide +kernel
  have hfound : root.lookup? "spec.items[1]" = some .null := by
    rw [Value.lookup?_eq_follow? root hsteps]
    rfl
  have hbeside : root.lookup? "spec.items[0]" = some (.bool true) := by
    rw [Value.lookup?_eq_follow? root hothers]
    rfl
  have hpart : Yaml.Path.Part "spec.items[1]" "spec.items[0]" :=
    ⟨_, _, hsteps, hothers, by decide, by decide⟩
  have hnowhere : root.lookup? "spec.items.kind" = none := by
    have hsteps : steps? "spec.items.kind" = some [.key "spec", .key "items", .key "kind"] := by
      decide +kernel
    rw [Value.lookup?_eq_follow? root hsteps]
    rfl
  obtain ⟨_, _, _, hmissing, _⟩ := require_assign root "spec.items.kind" "t"
  obtain ⟨_, _, _, _, hassign⟩ := require_assign root "spec.items[1]" "t"
  obtain ⟨changed, hchanged, hnew, _, hother, steps, hsteps', _, hway⟩ :=
    (hassign .null hfound).2 (.string "new")
  obtain rfl := Option.some.inj (hsteps.symm.trans hsteps')
  obtain ⟨before, after, hbefore, hafter, htags, hkeys⟩ := hway [] _ _ rfl
  cases hbefore
  cases hafter
  exact ⟨changed, hfound, hchanged, hnew, (hother _ hpart).trans hbeside, htags, hkeys,
    hmissing hnowhere .null⟩

end Manifest

end OperatorBundle
