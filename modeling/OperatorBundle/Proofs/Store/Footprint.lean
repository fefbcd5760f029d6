import OperatorBundle.Proofs.Store.Disk

/-!
# The footprint of a computation on disk

Where a later tree differs from an earlier one there is a directory that was made or a file that was
written.  `Footprint` says to which of them paths lead that are known beforehand, and that nothing was
taken away.  What an operation puts into the tree can be found there: a directory that was made
(`isDirectory_of_makeDirectories`) and a text that was written (`read_of_write`).
-/

namespace OperatorBundle.Store.Disk

variable {disk middle later : Disk} {p : Path} {place : Place} {bytes : ByteArray}

/-! ## What is found later -/

/-- A path leads ever after to the directory to which it leads. -/
theorem Grows.find_directory (h : Grows disk later) (hfind : disk.find p = .ok (place, .directory)) :
    later.find p = .ok (place, .directory) := by
  rcases hlocate : disk.locate p with cause | ⟨directory, _ | name⟩
  · rw [find_of_locate_error hlocate] at hfind
    cases hfind
  · rw [find_of_locate_none hlocate] at hfind
    rw [find_of_locate_none (h.locate hlocate)]
    exact hfind
  · rcases Nat.lt_or_ge nameLimit name.utf8ByteSize with hlong | hshort
    · rw [find_of_long hlocate hlong] at hfind
      cases hfind
    · rw [find_of_locate hlocate hshort] at hfind
      rw [find_of_locate (h.locate hlocate) hshort]
      split at hfind
      · cases hfind
      · split at hfind <;> cases hfind
      · rename_i hentry
        rw [h.directory _ hentry]
        exact hfind

/-- A directory stays one as the disk grows. -/
theorem Grows.isDirectory (h : Grows disk later) (hdirectory : disk.isDirectory p = true) :
    later.isDirectory p = true := by
  unfold Disk.isDirectory at hdirectory ⊢
  split at hdirectory
  · rename_i place hfind
    rw [h.find_directory hfind]
  · cases hdirectory

/-- A path leads ever after to a file in the place of the one to which it leads. -/
theorem Grows.find_file (h : Grows disk later) (hfind : disk.find p = .ok (place, .file bytes)) :
    ∃ bytes', later.find p = .ok (place, .file bytes') := by
  obtain ⟨hplace, hentry⟩ := find_eq_file_iff.mp hfind
  obtain ⟨bytes', hlater⟩ := h.file place bytes hentry
  exact ⟨bytes', find_eq_file_iff.mpr ⟨h.place? hplace, hlater⟩⟩

/-! ## Footprints -/

/-- A later tree in which everything is as it was but directories to which some paths lead and files
to which others lead. -/
structure Footprint (directories files : Path → Prop) (disk later : Disk) : Prop where
  grows : Grows disk later
  entry : ∀ place, later.entry? place = disk.entry? place ∨
    (∃ p, directories p ∧ later.find p = .ok (place, .directory)) ∨
    ∃ p bytes, files p ∧ later.find p = .ok (place, .file bytes)

variable {directories files : Path → Prop}

theorem Footprint.refl (directories files : Path → Prop) (disk : Disk) :
    Footprint directories files disk disk where
  grows := .refl disk
  entry _ := .inl rfl

/-- Two steps that stay within a footprint stay within it one after the other. -/
theorem Footprint.trans (h : Footprint directories files disk middle)
    (h' : Footprint directories files middle later) : Footprint directories files disk later where
  grows := h.grows.trans h'.grows
  entry place := by
    rcases h'.entry place with hsame | hfound
    · rcases h.entry place with hfirst | ⟨p, hp, hfind⟩ | ⟨p, bytes, hp, hfind⟩
      · exact .inl (hsame.trans hfirst)
      -- what the first changes put there is still there
      · exact .inr (.inl ⟨p, hp, h'.grows.find_directory hfind⟩)
      · obtain ⟨bytes', hlater⟩ := h'.grows.find_file hfind
        exact .inr (.inr ⟨p, bytes', hp, hlater⟩)
    · exact .inr hfound

/-- A footprint is one in larger sets as well. -/
theorem Footprint.mono {directories' files' : Path → Prop}
    (h : Footprint directories files disk later) (hdirectories : ∀ p, directories p → directories' p)
    (hfiles : ∀ p, files p → files' p) : Footprint directories' files' disk later where
  grows := h.grows
  entry place := by
    rcases h.entry place with hsame | ⟨p, hp, hfind⟩ | ⟨p, bytes, hp, hfind⟩
    · exact .inl hsame
    · exact .inr (.inl ⟨p, hdirectories p hp, hfind⟩)
    · exact .inr (.inr ⟨p, bytes, hfiles p hp, hfind⟩)

/-! ## Writing -/

/-- A file is found where it was written. -/
theorem find_set_file (hp : disk.writable p = .ok place) (bytes : ByteArray) :
    Disk.find (disk.set place (.file bytes)) p = .ok (place, .file bytes) := by
  obtain ⟨hleads, hfree⟩ := writable_eq_ok_iff.mp hp
  have hne := place?_ne_nil hleads
  refine find_eq_file_iff.mpr ⟨(Grows.set_file hne hfree bytes).place? hleads, ?_⟩
  rw [entry?_set disk hne, if_pos rfl]

/-- A file is put where one may be written. -/
theorem footprint_set (hp : disk.writable p = .ok place) (bytes : ByteArray) :
    Footprint (fun _ => False) (· = p) disk (disk.set place (.file bytes)) := by
  obtain ⟨hleads, hfree⟩ := writable_eq_ok_iff.mp hp
  have hne := place?_ne_nil hleads
  refine ⟨.set_file hne hfree bytes, fun other => ?_⟩
  -- nothing but the place of the file has another entry than before
  by_cases hother : other = place
  · rw [hother]
    exact .inr (.inr ⟨p, bytes, rfl, find_set_file hp bytes⟩)
  · rw [entry?_set disk hne, if_neg hother]
    exact .inl rfl

/-- Writing touches the written file alone. -/
theorem footprint_write (h : disk.write p bytes = .ok later) :
    Footprint (fun _ => False) (· = p) disk later := by
  obtain ⟨place, hplace, h⟩ := bind_eq_ok_iff.mp h
  rw [← Except.ok.inj h]
  exact footprint_set hplace bytes

/-- Copying touches the target alone. -/
theorem footprint_copy {source target : Path} (h : disk.copy source target = .ok later) :
    Footprint (fun _ => False) (· = target) disk later := by
  obtain ⟨_, _, place, _, htarget, rfl⟩ := copy_eq_ok h
  exact footprint_set htarget _

/-- What an operation that fails puts into the tree is nothing. -/
theorem footprint_settle {report : Cause → BundleError} {result : Except Cause Disk}
    (h : ∀ later, result = .ok later → Footprint directories files disk later) :
    Footprint directories files disk (disk.settle report result).2 := by
  cases result with
  | error cause => exact .refl directories files disk
  | ok later => exact h later rfl

theorem fromUTF8?_toUTF8 (text : String) : String.fromUTF8? text.toUTF8 = some text := by
  unfold String.fromUTF8?
  split
  · rfl
  · rename_i hinvalid
    exact absurd text.isValidUTF8 hinvalid

/-- What was written is read. -/
theorem read_of_write {text : String} (h : disk.write p text.toUTF8 = .ok later) :
    later.read p = .ok text := by
  obtain ⟨place, hplace, h⟩ := bind_eq_ok_iff.mp h
  rw [← Except.ok.inj h, read, find_set_file hplace, ok_bind]
  simp only [fromUTF8?_toUTF8]
  rfl

/-! ## Making directories -/

/-- Making a directory makes it there and changes no other place. -/
theorem find_of_create (h : disk.create p = .ok later) :
    ∃ place, later.find p = .ok (place, .directory) ∧
      ∀ other, other ≠ place → later.entry? other = disk.entry? other := by
  have hgrows := (addsDirectories_of_create h).grows
  obtain ⟨directory, name, hlocate, hshort, hnone, rfl⟩ := create_eq_ok h
  have hne := List.cons_ne_nil name directory
  refine ⟨name :: directory, ?_, fun other hother => ?_⟩
  · rw [find_of_locate (hgrows.locate hlocate) hshort, entry?_set disk hne, if_pos rfl]
  · rw [entry?_set disk hne, if_neg hother]

/-- Making sure of a directory touches that directory alone. -/
theorem footprint_ensure (h : disk.ensure p = .ok later) :
    Footprint (· = p) (fun _ => False) disk later := by
  rcases ensure_eq_ok h with hcreate | ⟨rfl, _⟩
  · obtain ⟨place, hfind, hothers⟩ := find_of_create hcreate
    refine ⟨(addsDirectories_of_create hcreate).grows, fun other => ?_⟩
    by_cases hother : other = place
    · rw [hother]
      exact .inr (.inl ⟨p, rfl, hfind⟩)
    · exact .inl (hothers other hother)
  · exact .refl _ _ _

/-- After making sure of a directory it is one. -/
theorem isDirectory_of_ensure (h : disk.ensure p = .ok later) : later.isDirectory p = true := by
  rcases ensure_eq_ok h with hcreate | ⟨rfl, hdirectory⟩
  · obtain ⟨place, hfind, _⟩ := find_of_create hcreate
    rw [isDirectory, hfind]
  · exact hdirectory

/-- Making sure of several directories touches these alone. -/
theorem footprint_ensureAll (ps : List Path) (disk : Disk) :
    Footprint (· ∈ ps) (fun _ => False) disk (ensureAll ps disk).2 := by
  refine ensureAll_preserves (fun p hp before after hmade h => ?_) (.refl _ _ disk)
  exact h.trans ((footprint_ensure hmade).mono (fun q hq => hq ▸ hp) fun _ h => h)

/-- A directory that was made is there. -/
theorem isDirectory_of_makeDirectories (h : disk.makeDirectories p = (.ok (), later)) :
    later.isDirectory p = true := by
  have hall : ensureAll (p :: p.parents) disk = (.ok (), later) := h
  rcases ensureAll_cons_eq_ok hall with hensure | ⟨_, _, hensure⟩
  · exact isDirectory_of_ensure hensure
  · exact isDirectory_of_ensure hensure

end OperatorBundle.Store.Disk
