import OperatorBundle.Proofs.Store.Tree

/-!
# The memory as a mirror of the disk

A memory mirrors a tree if both hold the same files and the same directories, as far as plain paths
lead to them (`Mirrors`).  The two differ in much: a tree refuses what a memory allows, and a memory
knows files without directories around them.  They stay alike when both are changed
(`Mirrors.write`, `Mirrors.makeDirectories`), and they list the same files (`Mirrors.sameListing`).
A memory whose files stand in directories that it has is a mirror of some tree (`mirrors_tree`).
-/

namespace OperatorBundle.Store

open Disk (Place Entry Cause)
open OperatorBundle.Path (IsName IsPlain ofNames)

/-- A tree and a memory with the same files and directories. -/
structure Mirrors (disk : Disk) (store : Memory) : Prop where
  tree : disk.IsTree
  map : store.IsMap
  plainFiles : ∀ file ∈ store.files, file.1.IsPlain
  plainDirectories : ∀ p ∈ store.directories, p.IsPlain
  file_iff : ∀ p, p.IsPlain → ∀ bytes, disk.entry? (disk.below p) = some (.file bytes) ↔
    ∃ text, store.text? p = some text ∧ bytes = text.toUTF8
  directory_iff : ∀ p, p.IsPlain →
    (disk.entry? (disk.below p) = some .directory ↔ store.HasDirectory p)

variable {disk later : Disk} {store : Memory} {p q source directory : Path} {place : Place}
  {name text : String}

/-! ## Places and paths -/

/-- Plain paths lead to different places. -/
theorem Disk.below_inj (h : disk.below p = disk.below q) : p = q := by
  have hnames := List.reverse_inj.mp (List.append_cancel_right h)
  rw [← Path.ofNames_names p, hnames, Path.ofNames_names]

theorem Disk.below_join (disk : Disk) (h : p.IsPlain) (hname : IsName name) :
    disk.below (p.join ⟨name⟩) = name :: disk.below p :=
  Disk.below_eq_of_names (h.names_join hname)

theorem Disk.below_congr (h : later.base = disk.base) (p : Path) :
    later.below p = disk.below p := by
  rw [Disk.below, Disk.below, h]

/-! ## A tree for a memory -/

/-- What a memory holds, at the places that the names of its paths spell. -/
def Memory.tree (store : Memory) : Disk where
  entries := store.files.map (fun file => (file.1.names.reverse, .file file.2.toUTF8)) ++
    store.directories.map fun p => (p.names.reverse, .directory)

/-- A memory mirrors its tree, if it is one. -/
theorem mirrors_tree (hmap : store.IsMap) (hfiles : ∀ file ∈ store.files, file.1.IsPlain)
    (hdirectories : ∀ p ∈ store.directories, p.IsPlain) (htree : store.tree.IsTree) :
    Mirrors store.tree store := by
  -- at each place stands the file or the directory whose path spells it
  have hentry : ∀ p entry, store.tree.entry? (store.tree.below p) = some entry ↔
      (∃ file ∈ store.files, file.1 = p ∧ .file file.2.toUTF8 = entry) ∨
        ∃ q ∈ store.directories, q = p ∧ .directory = entry := by
    intro p entry
    have hnames : ∀ q : Path, q.names.reverse = store.tree.below p ↔ q = p := by
      intro q
      have hbelow : store.tree.below q = q.names.reverse := List.append_nil _
      rw [← hbelow]
      exact ⟨Disk.below_inj, fun hsame => hsame ▸ rfl⟩
    rcases List.exists_cons_of_ne_nil (store.tree.below_ne_nil p) with ⟨name, around, hplace⟩
    rw [hplace, ← htree.mem_entries_iff, ← hplace]
    show _ ∈ store.files.map _ ++ store.directories.map _ ↔ _
    simp only [List.mem_append, List.mem_map, Prod.mk.injEq, hnames]
  refine ⟨htree, hmap, hfiles, hdirectories, fun p hp bytes => ?_, fun p hp => ?_⟩
  · rw [hentry]
    constructor
    · rintro (⟨⟨_, text⟩, hmem, rfl, hbytes⟩ | ⟨_, _, _, hentry⟩)
      · exact ⟨text, Memory.text?_of_mem hmap hmem, (Entry.file.inj hbytes).symm⟩
      · cases hentry
    · rintro ⟨text, htext, rfl⟩
      rcases Memory.exists_mem_of_text? htext with ⟨q, hmem, hsame⟩
      have hplain : q.IsPlain := hfiles _ hmem
      exact Or.inl ⟨(q, text), hmem, hplain.eq_of_components hp hsame, rfl⟩
  · rw [hentry]
    constructor
    · rintro (⟨_, _, _, hentry⟩ | ⟨q, hmem, rfl, _⟩)
      · cases hentry
      · exact ⟨q, hmem, rfl⟩
    · rintro ⟨q, hmem, hsame⟩
      exact Or.inr ⟨q, hmem, (hdirectories q hmem).eq_of_components hp hsame, rfl⟩

/-! ## Looking at both -/

/-- Both hold a file at a path, or neither does. -/
theorem Mirrors.mem_files_iff (h : Mirrors disk store) (hp : p.IsPlain) :
    (∃ text, (p, text) ∈ store.files) ↔
      ∃ bytes, disk.entry? (disk.below p) = some (.file bytes) := by
  constructor
  · rintro ⟨text, hmem⟩
    exact ⟨text.toUTF8, (h.file_iff p hp _).mpr ⟨text, Memory.text?_of_mem h.map hmem, rfl⟩⟩
  · rintro ⟨bytes, hentry⟩
    rcases (h.file_iff p hp bytes).mp hentry with ⟨text, htext, _⟩
    rcases Memory.exists_mem_of_text? htext with ⟨q, hmem, hsame⟩
    have hplain : q.IsPlain := h.plainFiles _ hmem
    exact ⟨text, hplain.eq_of_components hp hsame ▸ hmem⟩

/-- The text of a file of the tree is that of the memory. -/
theorem Mirrors.text?_eq_some (h : Mirrors disk store) (hp : p.IsPlain)
    (hentry : disk.entry? (disk.below p) = some (.file text.toUTF8)) :
    store.text? p = some text := by
  rcases (h.file_iff p hp _).mp hentry with ⟨other, hother, hbytes⟩
  rw [hother, String.toByteArray_inj.mp hbytes]

theorem Mirrors.text?_eq_none (h : Mirrors disk store) (hp : p.IsPlain)
    (hentry : disk.entry? (disk.below p) = none) : store.text? p = none := by
  cases htext : store.text? p with
  | none => rfl
  | some text =>
      rw [(h.file_iff p hp text.toUTF8).mpr ⟨text, htext, rfl⟩] at hentry
      cases hentry

/-- A file that stands in a directory is this directory with a name. -/
theorem Mirrors.eq_join (h : Mirrors disk store) (hp : p.IsPlain) (hq : (q, text) ∈ store.files)
    (hstands : Memory.standsIn p q = true) : ∃ name, IsName name ∧ q = p.join ⟨name⟩ := by
  have hplain := h.plainFiles _ hq
  rcases hplain.exists_fileName? with ⟨name, hname⟩
  exact ⟨name, hp.eq_join hplain (Memory.components_of_standsIn hstands hname)⟩

/-- Two listings of a directory: the same files, and each of them once. -/
structure SameListing (directory : Path) (a b : List Path) : Prop where
  mem_iff : ∀ q, q ∈ a ↔ q ∈ b
  left : a.Pairwise Path.NamesDiffer
  right : b.Pairwise Path.NamesDiffer
  inside : ∀ q ∈ a, ∃ name, IsName name ∧ q = directory.join ⟨name⟩

/-- A directory has the same files in both. -/
theorem Mirrors.sameListing (h : Mirrors disk store) (hp : p.IsPlain) {a : List Path}
    (hlist : disk.list p = .ok a) : ∃ b, store.list p = .ok b ∧ SameListing p a b := by
  rcases h.tree.list_eq_ok hp hlist with ⟨hdirectory, hnames, hmem⟩
  cases hother : store.list p with
  | error e =>
      rcases Memory.list_eq_error_iff.mp hother with ⟨_, hnone, _⟩
      exact absurd ((h.directory_iff p hp).mp hdirectory) hnone
  | ok b =>
      have hb := Memory.list_eq_ok hother
      subst hb
      refine ⟨_, rfl, ⟨fun q => ?_, hnames, h.map.namesDiffer p, fun q hq => ?_⟩⟩
      -- a file is listed on both sides if it stands in the directory under a name
      · rw [hmem, Memory.mem_listing]
        constructor
        · rintro ⟨name, bytes, hname, rfl, hentry⟩
          rw [← disk.below_join hp hname] at hentry
          exact ⟨(h.mem_files_iff (hp.join hname)).mpr ⟨bytes, hentry⟩,
            Memory.standsIn_of_components (Path.components_join p hname)⟩
        · rintro ⟨⟨text, hfile⟩, hstands⟩
          rcases h.eq_join hp hfile hstands with ⟨name, hname, rfl⟩
          rcases (h.mem_files_iff (hp.join hname)).mp ⟨text, hfile⟩ with ⟨bytes, hentry⟩
          rw [disk.below_join hp hname] at hentry
          exact ⟨name, bytes, hname, rfl, hentry⟩
      · rcases (hmem q).mp hq with ⟨name, _, hname, hjoin, _⟩
        exact ⟨name, hname, hjoin⟩

/-- A directory that the tree does not have is none of the memory. -/
theorem Mirrors.list_eq_error (h : Mirrors disk store) (hp : p.IsPlain)
    (hentry : disk.entry? (disk.below p) = none) : store.list p = .error (.notFound p.text) := by
  rw [Memory.list_eq_error_iff]
  refine ⟨fun file hfile => ?_, fun hdirectory => ?_, rfl⟩
  · rw [Bool.eq_false_iff]
    -- a file in the memory would stand in the tree, and so would the directory around it
    intro hstands
    rcases h.eq_join hp hfile hstands with ⟨name, hname, hjoin⟩
    have hplain : file.1.IsPlain := h.plainFiles file hfile
    rcases (h.mem_files_iff hplain).mp ⟨file.2, hfile⟩ with ⟨bytes, hfound⟩
    rw [hjoin, disk.below_join hp hname] at hfound
    rw [h.tree.inside _ _ _ hfound] at hentry
    cases hentry
  · rw [(h.directory_iff p hp).mpr hdirectory] at hentry
    cases hentry

/-! ## Changing both -/

/-- A text is put into a file of both. -/
theorem Mirrors.write (h : Mirrors disk store) (hp : p.IsPlain)
    (hwritable : disk.writable p = .ok place) (text : String) :
    Mirrors (disk.set place (.file text.toUTF8)) (store.write p text) := by
  rcases h.tree.writable_eq_ok hp hwritable with ⟨hbelow, hfree, name, inside, rfl, hname, hinside⟩
  have hentry := Disk.entry?_set disk (List.cons_ne_nil name inside) (.file text.toUTF8)
  -- other plain paths lead to other places, and have other components
  have hother : ∀ q, q.IsPlain → q ≠ p →
      disk.below q ≠ name :: inside ∧ p.components ≠ q.components := by
    intro q hq hne
    exact ⟨fun hsame => hne (Disk.below_inj (hsame.trans hbelow)),
      fun hsame => hne (hp.eq_of_components hq hsame).symm⟩
  constructor
  · exact h.tree.set hname hinside (Or.inr hfree)
  · exact h.map.write p text
  · intro file hfile
    rcases Memory.fst_of_mem_put hfile with hsame | ⟨old, hold, hsame⟩
    · exact hsame ▸ hp
    · exact hsame ▸ h.plainFiles old hold
  · exact h.plainDirectories
  · intro q hq bytes
    show Disk.entry? (disk.set (name :: inside) (.file text.toUTF8)) (disk.below q) = _ ↔ _
    rw [hentry, Memory.text?_write]
    by_cases hsame : q = p
    · subst hsame
      rw [if_pos hbelow.symm, if_pos rfl]
      simp [eq_comm]
    · rcases hother q hq hsame with ⟨hplace, hcomponents⟩
      rw [if_neg hplace, if_neg hcomponents]
      exact h.file_iff q hq bytes
  · intro q hq
    show Disk.entry? (disk.set (name :: inside) (.file text.toUTF8)) (disk.below q) = _ ↔
      store.HasDirectory q
    rw [hentry]
    by_cases hsame : q = p
    · subst hsame
      rw [hbelow] at hfree ⊢
      rw [if_pos rfl, ← h.directory_iff q hq]
      exact iff_of_false (by simp) hfree
    · rw [if_neg (hother q hq hsame).1]
      exact h.directory_iff q hq

/-- A directory and those above it are made in both. -/
theorem Mirrors.makeDirectories (h : Mirrors disk store) (hp : p.IsPlain)
    (hmade : disk.makeDirectories p = (.ok (), later)) :
    Mirrors later (store.makeDirectories p) ∧ later.entry? (later.below p) = some .directory := by
  rcases h.tree.makeDirectories_eq_ok hp hmade with ⟨htree, hadds, hdirectory⟩
  have hbelow := Disk.below_congr hadds.base
  refine ⟨⟨htree, h.map, h.plainFiles, fun q hq => ?_, fun q hq bytes => ?_, fun q hq => ?_⟩, ?_⟩
  · rcases Memory.of_mem_foldl_addDirectory hq with hq | hq
    · exact h.plainDirectories q hq
    · rcases List.mem_filter.mp hq with ⟨hq, htext⟩
      exact (hp.of_mem_ancestors hq (by simpa using htext)).1
  · rw [hbelow, Memory.text?_makeDirectories, ← h.file_iff q hq bytes]
    rcases hadds.entry (disk.below q) with hsame | ⟨hnone, hnew⟩
    · rw [hsame]
    · rw [hnone, hnew]
      exact iff_of_false (by simp) (by simp)
  · rw [hbelow, hdirectory, h.directory_iff q hq, Memory.hasDirectory_makeDirectories]
    refine or_congr_right ⟨?_, ?_⟩
    -- a new place is spelled by a beginning of the names, which is a path above
    · rintro ⟨front, hbegins, hplace⟩
      have hfront : q.names = front := List.reverse_inj.mp (List.append_cancel_right hplace)
      exact ⟨q, hp.mem_ancestors (hfront ▸ hbegins), hq.text_ne_empty, rfl⟩
    · rintro ⟨a, ha, htext, hsame⟩
      rcases hp.of_mem_ancestors ha htext with ⟨hplain, hbegins⟩
      rw [← hplain.eq_of_components hq hsame]
      exact ⟨a.names, hbegins, rfl⟩
  · rw [hbelow, hdirectory]
    exact Or.inr ⟨p.names, List.prefix_rfl, rfl⟩

end OperatorBundle.Store
