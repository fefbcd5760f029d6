import Mathlib.Data.Option.Basic
import OperatorBundle.Build
import OperatorBundle.Proofs.Path.Components
import OperatorBundle.Proofs.Store.Memory
import OperatorBundle.Proofs.Text.Bytes

/-!
# The resource definitions of a store

Which files of a store a build takes for resource definitions, and in which order.  `IsSelection`
says it without the code: those in the directory whose names end as asked, by name.  There is one
such list for each store (`IsSelection.unique`), and it is the one that the build makes of a listing
in any order (`isSelection_selection`).
-/

namespace OperatorBundle.Build

open Store (Memory)

/-- The files that stand in the directory of resource definitions and whose names end as asked, with
these names, ordered by the bytes of the names. -/
structure IsSelection (config : Config) (store : Memory) (files : List NamedFile) : Prop where
  /-- The names ascend, so none comes twice. -/
  ascending : files.Pairwise fun a b => Text.bytes a.1 < Text.bytes b.1
  mem_iff : ∀ name p, (name, p) ∈ files ↔
    (∃ text, (p, text) ∈ store.files) ∧
    (∃ q, p.parent? = some q ∧ q.components = (Path.mk config.inputs.crdDir).components) ∧
    p.fileName? = some name ∧ config.inputs.crdSuffix.toList <:+ name.toList

/-- The files that a build makes of the listing of a directory. -/
def selection (config : Config) (store : Memory) : List NamedFile :=
  crdFiles config.inputs.crdSuffix
    ((store.files.map (·.1)).filter (Memory.standsIn ⟨config.inputs.crdDir⟩))

/-! ## Ordering by name -/

theorem mem_insertByName {file other : NamedFile} {files : List NamedFile} :
    other ∈ insertByName file files ↔ other = file ∨ other ∈ files := by
  induction files with
  | nil => simp [insertByName]
  | cons first files ih =>
      unfold insertByName
      split
      · rw [List.mem_cons, ih, List.mem_cons]
        exact or_left_comm
      · rw [List.mem_cons]

theorem lt_of_not_lt {a b : String} (h : ¬ b < a) (hne : b ≠ a) : a < b := by
  rcases Decidable.em (a < b) with hlt | hlt
  · exact hlt
  · exact absurd (String.le_antisymm (String.not_lt.mp hlt) (String.not_lt.mp h)) hne

/-- A file with a new name finds its place among files in order. -/
theorem pairwise_insertByName {file : NamedFile} {files : List NamedFile}
    (h : files.Pairwise fun a b => a.1 < b.1) (hnew : ∀ other ∈ files, other.1 ≠ file.1) :
    (insertByName file files).Pairwise fun a b => a.1 < b.1 := by
  induction files with
  | nil => exact List.pairwise_singleton _ _
  | cons first files ih =>
      have hrest := List.pairwise_cons.mp h
      unfold insertByName
      split
      · rename_i hlt
        rw [List.pairwise_cons]
        refine ⟨fun other hother => ?_, ih hrest.2 fun f hf => hnew f (List.mem_cons_of_mem _ hf)⟩
        -- what stands behind the first file is the new one, or stood there before
        rcases mem_insertByName.mp hother with rfl | hother
        · exact hlt
        · exact hrest.1 other hother
      · rename_i hlt
        have hfirst : file.1 < first.1 := lt_of_not_lt hlt (hnew first List.mem_cons_self)
        rw [List.pairwise_cons]
        refine ⟨fun other hother => ?_, h⟩
        rcases List.mem_cons.mp hother with rfl | hother
        · exact hfirst
        · exact String.lt_trans hfirst (hrest.1 other hother)

theorem mem_foldr_insertByName {file : NamedFile} {files : List NamedFile} :
    file ∈ files.foldr insertByName [] ↔ file ∈ files := by
  induction files with
  | nil => rfl
  | cons first files ih => rw [List.foldr_cons, mem_insertByName, ih, List.mem_cons]

/-- Files with different names come out in order. -/
theorem pairwise_foldr_insertByName {files : List NamedFile}
    (h : files.Pairwise fun a b => a.1 ≠ b.1) :
    (files.foldr insertByName []).Pairwise fun a b => a.1 < b.1 := by
  induction files with
  | nil => exact List.Pairwise.nil
  | cons first files ih =>
      rw [List.pairwise_cons] at h
      rw [List.foldr_cons]
      refine pairwise_insertByName (ih h.2) fun other hother => ?_
      exact (h.1 other (mem_foldr_insertByName.mp hother)).symm

/-! ## Names in one directory -/

theorem named?_eq_some_iff {suffix : String} {p : Path} {file : NamedFile} :
    named? suffix p = some file ↔
      file.2 = p ∧ p.fileName? = some file.1 ∧ suffix.toList <:+ file.1.toList := by
  rcases file with ⟨name, q⟩
  unfold named?
  simp only [Option.bind_eq_bind, Option.bind_eq_some_iff, Option.guard_eq_some',
    List.isSuffixOf_iff_suffix, Option.pure_def, Option.some.injEq, Prod.mk.injEq]
  constructor
  · rintro ⟨found, hname, _, hsuffix, rfl, rfl⟩
    exact ⟨rfl, hname, hsuffix⟩
  · rintro ⟨rfl, hname, hsuffix⟩
    exact ⟨name, hname, (), hsuffix, rfl, rfl⟩

theorem mem_crdFiles {suffix name : String} {files : List Path} {p : Path} :
    (name, p) ∈ crdFiles suffix files ↔
      p ∈ files ∧ p.fileName? = some name ∧ suffix.toList <:+ name.toList := by
  rw [crdFiles, mem_foldr_insertByName, List.mem_filterMap]
  constructor
  · rintro ⟨q, hq, hnamed⟩
    rcases named?_eq_some_iff.mp hnamed with ⟨rfl, hname, hsuffix⟩
    exact ⟨hq, hname, hsuffix⟩
  · rintro ⟨hp, hname, hsuffix⟩
    exact ⟨p, hp, named?_eq_some_iff.mpr ⟨rfl, hname, hsuffix⟩⟩

/-- The names ascend of files of which no two share a name. -/
theorem pairwise_crdFiles {files : List Path} (h : files.Pairwise Path.NamesDiffer)
    (suffix : String) :
    (crdFiles suffix files).Pairwise fun a b => a.1 < b.1 := by
  apply pairwise_foldr_insertByName
  rw [List.pairwise_filterMap]
  refine h.imp ?_
  intro p q hdiffer a ha b hb hsame
  rcases named?_eq_some_iff.mp ha with ⟨_, hnamep, _⟩
  rcases named?_eq_some_iff.mp hb with ⟨_, hnameq, _⟩
  exact hdiffer a.1 hnamep (hsame ▸ hnameq)

/-- Two lists in strictly ascending order with the same members are the same list. -/
theorem eq_of_mem_iff {a b : List NamedFile}
    (ha : a.Pairwise fun x y => Text.bytes x.1 < Text.bytes y.1)
    (hb : b.Pairwise fun x y => Text.bytes x.1 < Text.bytes y.1)
    (h : ∀ file, file ∈ a ↔ file ∈ b) : a = b := by
  have hne : ∀ x y : NamedFile, Text.bytes x.1 < Text.bytes y.1 → x ≠ y := by
    intro x y hlt e
    rw [e] at hlt
    exact List.lt_irrefl _ hlt
  have hperm : a.Perm b :=
    (List.perm_ext_iff_of_nodup (ha.imp (hne _ _)) (hb.imp (hne _ _))).mpr h
  refine hperm.eq_of_pairwise ?_ ha hb
  intro x y _ _ hxy hyx
  exact absurd hyx (List.lt_asymm hxy)

/-- The order in which a directory is listed does not matter. -/
theorem crdFiles_congr {a b : List Path} (ha : a.Pairwise Path.NamesDiffer)
    (hb : b.Pairwise Path.NamesDiffer) (h : ∀ p, p ∈ a ↔ p ∈ b) (suffix : String) :
    crdFiles suffix a = crdFiles suffix b :=
  eq_of_mem_iff ((pairwise_crdFiles ha suffix).imp Text.bytes_lt_bytes)
    ((pairwise_crdFiles hb suffix).imp Text.bytes_lt_bytes) fun file => by
      rw [mem_crdFiles, mem_crdFiles, h]

/-! ## The selection -/

/-- A file is selected if it stands in the directory and its name ends as asked. -/
theorem mem_selection {config : Config} {store : Memory} {name : String} {p : Path} :
    (name, p) ∈ selection config store ↔
      (∃ text, (p, text) ∈ store.files) ∧
      Memory.standsIn ⟨config.inputs.crdDir⟩ p = true ∧
      p.fileName? = some name ∧ config.inputs.crdSuffix.toList <:+ name.toList := by
  rw [selection, mem_crdFiles, Memory.mem_listing, and_assoc]

/-- The names of the selected files ascend: in a map no two files of one directory share a name. -/
theorem pairwise_selection {config : Config} {store : Memory} (hmap : store.IsMap) :
    (selection config store).Pairwise fun a b => a.1 < b.1 :=
  pairwise_crdFiles (hmap.namesDiffer _) _

theorem isSelection_selection {store : Memory} (config : Config) (hmap : store.IsMap) :
    IsSelection config store (selection config store) where
  ascending := (pairwise_selection hmap).imp Text.bytes_lt_bytes
  mem_iff name p := by rw [mem_selection, Memory.standsIn_iff]

/-- A store has one list of resource definitions, in whatever order it lists its files. -/
theorem IsSelection.unique {config : Config} {store : Memory} {a b : List NamedFile}
    (ha : IsSelection config store a) (hb : IsSelection config store b) : a = b :=
  eq_of_mem_iff ha.ascending hb.ascending fun file =>
    (ha.mem_iff file.1 file.2).trans (hb.mem_iff file.1 file.2).symm

/-- A selected file is there, and its name is an ordinary one. -/
theorem text?_of_mem_selection {config : Config} {store : Memory} (hmap : store.IsMap)
    {file : NamedFile} (h : file ∈ selection config store) :
    ∃ text, store.text? file.2 = some text := by
  rcases mem_selection.mp h with ⟨⟨text, hfile⟩, _⟩
  exact ⟨text, Memory.text?_of_mem hmap hfile⟩

theorem isName_of_mem_selection {config : Config} {store : Memory} {file : NamedFile}
    (h : file ∈ selection config store) : Path.IsName file.1 :=
  Path.isName_of_fileName? (mem_selection.mp h).2.2.1

end OperatorBundle.Build
