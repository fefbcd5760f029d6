import OperatorBundle.Proofs.Yaml.Alter
import Mathlib.Data.List.Forall2

/-!
# Changes that leave nothing of an earlier one

A change overwrites another if it comes to the same whether the other was made before it or not, the
order of the keys included.  Putting values under the keys of a mapping, changing what is found there
and making what is missing are all `Entries.update`.  One after the other, at different keys, they
overwrite what others have done at the same keys in the same order (`overwrites_updates`).
-/

namespace OperatorBundle.Yaml

/-- Does the second change leave nothing of the first? -/
def Overwrites {α : Type} (second first : α → α) : Prop :=
  ∀ a, second (first a) = second a

/-- A change that overwrites another still does below the same steps. -/
theorem Overwrites.alter {second first : Value → Value} (h : Overwrites second first)
    (steps : List Step) : Overwrites (Value.alter second steps) (Value.alter first steps) := by
  intro v
  have hsame : second ∘ first = second := funext h
  rw [Value.alter_alter, hsame]

/-- A change of entries that overwrites another does so inside a mapping. -/
theorem Overwrites.mapEntries {second first : Entries → Entries} (h : Overwrites second first) :
    Overwrites (Value.mapEntries second) (Value.mapEntries first) := by
  intro v
  have hsame : second ∘ first = second := funext h
  rw [Value.mapEntries_mapEntries, hsame]

namespace Value

theorem isNull_of_asMapping? {v : Value} {entries : Entries} (h : v.asMapping? = some entries) :
    v.isNull = false := by
  rw [isNull, asMapping?_eq_some_iff.mp h]

theorem isNull_mapEntries (change : Entries → Entries) (v : Value) :
    (v.mapEntries change).isNull = v.isNull := by
  cases h : v.asMapping? with
  | none => rw [mapEntries, h]
  | some entries =>
      have hchanged : (v.mapEntries change).asMapping? = some (change entries) := by
        rw [asMapping?_mapEntries, h]
        rfl
      rw [isNull_of_asMapping? h, isNull_of_asMapping? hchanged]

end Value

namespace Entries

/-! ## One key -/

/-- What comes to stand under a key, from what is found there; `none` if nothing is done. -/
abbrev Update := Option Value → Option Value

/-- Puts under a key what comes to stand there. -/
def update (key : String) (become : Update) (entries : Entries) : Entries :=
  match become (entries.get? key) with
  | some v => entries.set key v
  | none => entries

variable {entries : Entries} {key other : String} {v w : Value} {become : Update}

theorem update_some (h : become (entries.get? key) = some v) :
    entries.update key become = entries.set key v := by
  rw [update, h]

/-- An update that gives nothing leaves the entries as they are. -/
theorem update_none (h : become (entries.get? key) = none) : entries.update key become = entries := by
  rw [update, h]

/-- Adjusting the value of a key is an update that maps what the key holds. -/
theorem adjust_eq_update (entries : Entries) (key : String) (change : Value → Value) :
    entries.adjust key change = entries.update key (Option.map change) := by
  unfold adjust update
  cases entries.get? key <;> rfl

/-- An update of one key leaves the values of the other keys. -/
theorem get?_update_of_ne (entries : Entries) (h : key ≠ other) (become : Update) :
    (entries.update key become).get? other = entries.get? other := by
  unfold update
  split
  · exact get?_set_of_ne entries h _
  · rfl

/-- Values are put under two keys in either order, unless both keys are new: then the first one comes
to stand before the second. -/
theorem set_comm_of_isSome (hne : key ≠ other) (hfound : (entries.get? key).isSome = true)
    (v w : Value) : (entries.set other w).set key v = (entries.set key v).set other w := by
  induction entries with
  | nil => cases hfound
  | cons entry entries ih =>
      obtain ⟨k, old⟩ := entry
      by_cases hkey : isKey key k = true
      · have hother : isKey other k = false := by
          rw [isKey_iff.mp hkey]
          simpa [isKey] using hne
        simp [set, hkey, hother]
      · have hfound' : (get? entries key).isSome = true := by
          simpa [get?, List.find?_cons, hkey] using hfound
        by_cases hother : isKey other k = true
        · simp [set, hkey, hother]
        · simp [set, hkey, hother, ih hfound']

/-- Updates of two keys can be made in either order if the one does nothing where it finds nothing, or
finds something. -/
theorem update_comm (hne : key ≠ other) {become : Update}
    (hacts : entries.get? key = none → become none = none) (change : Update) :
    (entries.update other change).update key become =
      (entries.update key become).update other change := by
  have hkey := get?_update_of_ne entries hne.symm change
  have hother := get?_update_of_ne entries hne become
  cases hbecome : become (entries.get? key) with
  | none =>
      rw [update_none hbecome]
      exact update_none (hkey.symm ▸ hbecome)
  | some v =>
      -- the update puts a value where there was one, so that the order of new keys is not
      -- affected
      have hfound : (entries.get? key).isSome = true := by
        cases hentry : entries.get? key with
        | some _ => rfl
        | none =>
            rw [hentry, hacts hentry] at hbecome
            cases hbecome
      rw [update_some hbecome, update_some (hkey.symm ▸ hbecome)]
      rw [update_some hbecome] at hother
      cases hchange : change (entries.get? other) with
      | none =>
          rw [update_none hchange]
          exact (update_none (hother.symm ▸ hchange)).symm
      | some w =>
          rw [update_some hchange, set_comm_of_isSome hne hfound]
          exact (update_some (hother.symm ▸ hchange)).symm

/-! ## What overwrites what -/

/-- Does the second update leave nothing of the first, and do both or neither of them act? -/
structure Update.Absorbs (second first : Update) : Prop where
  value : ∀ found, second (first found <|> found) = second found
  acts : ∀ found, second found = none ↔ first found = none

/-- Putting a value absorbs an earlier put. -/
theorem absorbs_put (v w : Value) : Update.Absorbs (fun _ => some v) (fun _ => some w) :=
  ⟨fun _ => rfl, fun _ => by simp⟩

/-- Mapping absorbs an earlier map that it overwrites. -/
theorem absorbs_map {second first : Value → Value} (h : Overwrites second first) :
    Update.Absorbs (Option.map second) (Option.map first) where
  value found := by
    cases found with
    | none => rfl
    | some v => exact congrArg some (h v)
  acts found := by cases found <;> simp

/-- What has been made, or was there, is a mapping that is not made again. -/
theorem ensured_some_ensured {second first : Entries → Entries} (h : Overwrites second first)
    (found : Option Value) : ensured second (some (ensured first found)) = ensured second found := by
  have hmade : ensured second (some (.mapping (first []))) = .mapping (second []) :=
    congrArg Value.mapping (h [])
  cases found with
  | none => exact hmade
  | some v =>
      cases hnull : v.isNull with
      | true =>
          simp only [ensured, hnull, if_true]
          exact hmade
      | false =>
          have hkept : (v.mapEntries first).isNull = false := (Value.isNull_mapEntries first v).trans hnull
          simp only [ensured, hnull, hkept, Bool.false_eq_true, if_false]
          exact h.mapEntries v

/-- Changing an ensured section absorbs an earlier such change that it overwrites. -/
theorem absorbs_ensured {second first : Entries → Entries} (h : Overwrites second first) :
    Update.Absorbs (some ∘ ensured second) (some ∘ ensured first) where
  value found := congrArg some (ensured_some_ensured h found)
  acts _ := by simp

/-- After an update the key holds what the update gives, or what it held. -/
theorem get?_update_self (entries : Entries) (key : String) (become : Update) :
    (entries.update key become).get? key = (become (entries.get? key) <|> entries.get? key) := by
  cases h : become (entries.get? key) with
  | none => exact (update_none h).symm ▸ rfl
  | some v =>
      rw [update_some h]
      exact get?_set_self entries key v

/-- Of two updates of one key the absorbing second one alone counts. -/
theorem update_update {second first : Update} (h : second.Absorbs first) (entries : Entries)
    (key : String) : (entries.update key first).update key second = entries.update key second := by
  have hvalue := get?_update_self entries key first ▸ h.value (entries.get? key)
  cases hsecond : second (entries.get? key) with
  | none => rw [update_none ((h.acts _).mp hsecond)]
  | some v =>
      rw [update_some (hvalue.trans hsecond), update_some hsecond]
      cases hfirst : first (entries.get? key) with
      | none => rw [update_none hfirst]
      | some w => rw [update_some hfirst, set_set]

/-! ## Several keys -/

/-- Updates one after the other. -/
def updates : List (String × Update) → Entries → Entries
  | [], entries => entries
  | (key, become) :: fields, entries => updates fields (entries.update key become)

/-- An update commutes with updates of other keys, provided it does not create its key. -/
theorem update_updates_comm {fields : List (String × Update)} (entries : Entries)
    (hne : ∀ field ∈ fields, key ≠ field.1) {become : Update}
    (hacts : entries.get? key = none → become none = none) :
    (updates fields entries).update key become = updates fields (entries.update key become) := by
  induction fields generalizing entries with
  | nil => rfl
  | cons field fields ih =>
      obtain ⟨hfirst, hrest⟩ := List.forall_mem_cons.mp hne
      have hacts' : (entries.update field.1 field.2).get? key = none → become none = none := by
        rw [get?_update_of_ne entries hfirst.symm]
        exact hacts
      rw [updates, updates, ih _ hrest hacts', update_comm hfirst hacts]

/-- Updates overwrite others at the same keys.  The keys that the earlier ones have added are found in
the order in which the later ones would have added them. -/
theorem overwrites_updates {second first : List (String × Update)}
    (h : List.Forall₂ (fun s f => s.1 = f.1 ∧ s.2.Absorbs f.2) second first)
    (hdistinct : (first.map (·.1)).Nodup) : Overwrites (updates second) (updates first) := by
  induction h with
  | nil => exact fun _ => rfl
  | @cons later earlier second first hhead _ ih =>
      intro entries
      obtain ⟨key, become⟩ := later
      obtain ⟨hkey, habsorbs⟩ := hhead
      change key = earlier.1 at hkey
      obtain ⟨hfresh, hdistinct⟩ := List.nodup_cons.mp hdistinct
      have hne : ∀ field ∈ first, key ≠ field.1 := by
        intro field hfield hsame
        have hmem : field.1 ∈ first.map (·.1) := List.mem_map_of_mem hfield
        exact hfresh (by rwa [← hsame, hkey] at hmem)
      -- where nothing stands even now, neither of the two updates has anything to do
      have hacts : (entries.update key earlier.2).get? key = none → become none = none := by
        intro hnone
        rw [get?_update_self] at hnone
        have hold : entries.get? key = none := by
          cases hentry : entries.get? key with
          | none => rfl
          | some v => cases hearlier : earlier.2 (some v) <;> simp [hentry, hearlier] at hnone
        refine (habsorbs.acts none).mpr ?_
        cases hfirst : earlier.2 none with
        | none => rfl
        | some v => simp [hold, hfirst] at hnone
      calc updates ((key, become) :: second) (updates (earlier :: first) entries)
        _ = updates second ((updates first (entries.update key earlier.2)).update key become) := by
            rw [hkey]
            rfl
        _ = updates second (updates first ((entries.update key earlier.2).update key become)) := by
            rw [update_updates_comm _ hne hacts]
        _ = updates second (updates first (entries.update key become)) := by
            rw [update_update habsorbs]
        _ = updates second (entries.update key become) := ih hdistinct _

end Entries

end OperatorBundle.Yaml
