import OperatorBundle.Proofs.Outcome
import OperatorBundle.Proofs.Store.Memory
import OperatorBundle.Store.Disk

/-!
# What becomes of a tree of files

No operation on a tree removes a directory or a file, so a path that could be followed can be
followed ever after, to the same place: this is `Disk.Grows`.  With it the files that a computation
changes can be told by the paths that it writes to (`Disk.Changes`), although the places to which
these paths lead may come to be only while it runs.
-/

namespace OperatorBundle.Store.Disk

variable {disk middle later : Disk} {p : Path} {place : Place} {bytes : ByteArray}

/-! ## Entries -/

/-- What was put at a place is found there, and all else as before. -/
theorem entry?_set (disk : Disk) {target : Place} (htarget : target ≠ []) (entry : Entry)
    (place : Place) :
    Disk.entry? (disk.set target entry) place =
      if place = target then some entry else disk.entry? place := by
  cases place with
  | nil => rw [if_neg fun h => htarget h.symm]; rfl
  | cons name directory => exact lookup_put target (name :: directory) entry disk.entries

/-- A child is looked up if its name is not too long. -/
theorem child_eq_ok_iff {directory : Place} {name : String} {found : Option Entry} :
    disk.child directory name = .ok found ↔
      name.utf8ByteSize ≤ nameLimit ∧ disk.entry? (name :: directory) = found := by
  unfold child
  split
  · rename_i hlong
    constructor
    · intro h
      cases h
    · intro h
      exact absurd hlong (Nat.not_lt.mpr h.1)
  · rename_i hshort
    rw [Except.ok.injEq]
    exact ⟨fun h => ⟨Nat.not_lt.mp hshort, h⟩, fun h => h.2⟩

/-- The directory from which a path is followed. -/
def origin (disk : Disk) (p : Path) : Place := if p.isAbsolute then [] else disk.base

/-- A path that the system takes is followed to its last name. -/
theorem locate_eq (disk : Disk) (p : Path) :
    disk.locate p =
      if p.text.toList.contains '\x00' then .error .endInside
      else if pathLimit < p.text.utf8ByteSize then .error .nameTooLong
      else
        (disk.enterAll (disk.origin p) (lastName (steps p)).1).map (·, (lastName (steps p)).2) := by
  unfold locate
  by_cases hend : p.text.toList.contains '\x00' = true
  · simp only [hend, if_true]
    rfl
  · by_cases hlong : pathLimit < p.text.utf8ByteSize
    · simp only [hend, hlong, if_true, Bool.false_eq_true, if_false]
      rfl
    · simp only [hend, hlong, Bool.false_eq_true, if_false]
      show (disk.enterAll (disk.origin p) (lastName (steps p)).1 >>= _) = _
      cases disk.enterAll (disk.origin p) (lastName (steps p)).1 <;> rfl

/-- What a path leads to if a file may be there: the name of it, and the directory around. -/
def place? (disk : Disk) (p : Path) : Option Place :=
  match disk.locate p with
  | .ok (directory, some name) =>
      if asksForDirectory p || nameLimit < name.utf8ByteSize then none else some (name :: directory)
  | _ => none

/-- A path has a place if it can be followed to a name that can be a file. -/
theorem place?_eq_some_iff :
    disk.place? p = some place ↔ ∃ directory name, disk.locate p = .ok (directory, some name) ∧
      asksForDirectory p = false ∧ name.utf8ByteSize ≤ nameLimit ∧ place = name :: directory := by
  unfold place?
  constructor
  · intro h
    split at h
    · rename_i directory name hlocate
      split at h
      · cases h
      · rename_i hrefused
        rw [Bool.or_eq_true, decide_eq_true_eq, not_or, Bool.not_eq_true, Nat.not_lt] at hrefused
        exact ⟨directory, name, hlocate, hrefused.1, hrefused.2, (Option.some.inj h).symm⟩
    · cases h
  · rintro ⟨directory, name, hlocate, hends, hshort, rfl⟩
    rw [hlocate]
    simp [hends, Nat.not_lt.mpr hshort]

/-- The place of a file is not the root. -/
theorem place?_ne_nil (h : disk.place? p = some place) : place ≠ [] := by
  rcases place?_eq_some_iff.mp h with ⟨directory, name, _, _, _, rfl⟩
  exact List.cons_ne_nil name directory

/-! ## Following a path -/

/-- What cannot be located is not found. -/
theorem find_of_locate_error {cause : Cause} (h : disk.locate p = .error cause) :
    disk.find p = .error cause := by
  rw [find, h]
  rfl

/-- A path without a last name leads to a directory. -/
theorem find_of_locate_none {directory : Place} (h : disk.locate p = .ok (directory, none)) :
    disk.find p = .ok (directory, .directory) := by
  rw [find, h]
  rfl

/-- A name that is too long is not found. -/
theorem find_of_long {directory : Place} {name : String}
    (h : disk.locate p = .ok (directory, some name)) (hlong : nameLimit < name.utf8ByteSize) :
    disk.find p = .error .nameTooLong := by
  have hchild : disk.child directory name = .error .nameTooLong := if_pos hlong
  rw [find, h, ok_bind]
  simp only [hchild]
  rfl

/-- What a path leads to is what stands at its last name. -/
theorem find_of_locate {directory : Place} {name : String}
    (h : disk.locate p = .ok (directory, some name)) (hshort : name.utf8ByteSize ≤ nameLimit) :
    disk.find p = match disk.entry? (name :: directory) with
      | none => .error .missing
      | some (.file bytes) =>
          if asksForDirectory p then .error .notADirectory
          else .ok (name :: directory, .file bytes)
      | some .directory => .ok (name :: directory, .directory) := by
  have hchild := child_eq_ok_iff.mpr ⟨hshort, Eq.refl (disk.entry? (name :: directory))⟩
  rw [find, h, ok_bind]
  simp only [hchild, ok_bind]
  rcases disk.entry? (name :: directory) with _ | (bytes | _) <;> rfl

/-- A path leads to a file if one stands at its place. -/
theorem find_eq_file_iff :
    disk.find p = .ok (place, .file bytes) ↔
      disk.place? p = some place ∧ disk.entry? place = some (.file bytes) := by
  rw [place?_eq_some_iff]
  constructor
  · intro h
    -- a path that cannot be followed, or that ends in a directory, leads to no file
    rcases hlocate : disk.locate p with cause | ⟨directory, _ | name⟩
    · rw [find_of_locate_error hlocate] at h
      cases h
    · rw [find_of_locate_none hlocate] at h
      cases h
    · rcases Nat.lt_or_ge nameLimit name.utf8ByteSize with hlong | hshort
      · rw [find_of_long hlocate hlong] at h
        cases h
      · rw [find_of_locate hlocate hshort] at h
        split at h
        · cases h
        · rename_i hentry
          split at h
          · cases h
          · rename_i hends
            cases h
            exact ⟨⟨directory, name, rfl, Bool.eq_false_iff.mpr hends, hshort, rfl⟩, hentry⟩
        · cases h
  · rintro ⟨⟨directory, name, hlocate, hends, hshort, rfl⟩, hentry⟩
    rw [find_of_locate hlocate hshort, hentry]
    simp [hends]

/-- A file may be written where none but a file stands. -/
theorem writable_eq_ok_iff :
    disk.writable p = .ok place ↔
      disk.place? p = some place ∧ disk.entry? place ≠ some .directory := by
  rw [place?_eq_some_iff, writable]
  rcases disk.locate p with cause | ⟨directory, _ | name⟩
  · simp [bind, Except.bind]
  · simp [bind, Except.bind]
  · rw [ok_bind]
    constructor
    · intro h
      simp only at h
      split at h
      · cases h
      · rename_i hends
        rcases bind_eq_ok_iff.mp h with ⟨found, hchild, h⟩
        rcases child_eq_ok_iff.mp hchild with ⟨hshort, rfl⟩
        split at h
        · cases h
        · rename_i hfree
          cases h
          exact ⟨⟨directory, name, rfl, Bool.eq_false_iff.mpr hends, hshort, rfl⟩, hfree⟩
    · rintro ⟨⟨directory', name', hsame, hends, hshort, rfl⟩, hfree⟩
      cases hsame
      have hchild := child_eq_ok_iff.mpr ⟨hshort, Eq.refl (disk.entry? (name :: directory))⟩
      simp only [hends, hchild, ok_bind, Bool.false_eq_true, if_false]
      rfl

/-! ## Growing -/

/-- A later tree: the directories are still there, and where a file was there is one. -/
structure Grows (disk later : Disk) : Prop where
  base : later.base = disk.base
  directory : ∀ place, disk.entry? place = some .directory → later.entry? place = some .directory
  file : ∀ place bytes, disk.entry? place = some (.file bytes) →
    ∃ bytes', later.entry? place = some (.file bytes')

/-- A disk that is left alone has grown. -/
theorem Grows.refl (disk : Disk) : Grows disk disk where
  base := rfl
  directory _ h := h
  file _ bytes h := ⟨bytes, h⟩

/-- What grows twice has grown. -/
theorem Grows.trans (h : Grows disk middle) (h' : Grows middle later) : Grows disk later where
  base := h'.base.trans h.base
  directory place hplace := h'.directory place (h.directory place hplace)
  file place bytes hplace := by
    rcases h.file place bytes hplace with ⟨bytes', hmiddle⟩
    exact h'.file place bytes' hmiddle

/-- Putting a file anywhere but in the place of a directory. -/
theorem Grows.set_file (hplace : place ≠ []) (hfree : disk.entry? place ≠ some .directory)
    (bytes : ByteArray) : Grows disk (disk.set place (.file bytes)) where
  base := rfl
  directory other hother := by
    rw [entry?_set disk hplace, if_neg]
    · exact hother
    · rintro rfl
      exact hfree hother
  file other bytes' hother := by
    rw [entry?_set disk hplace]
    split
    · exact ⟨bytes, rfl⟩
    · exact ⟨bytes', hother⟩

/-- A step into a directory can still be taken. -/
theorem Grows.enter (h : Grows disk later) {directory reached : Place} {step : String}
    (hreached : disk.enter directory step = .ok reached) :
    later.enter directory step = .ok reached := by
  unfold Disk.enter at hreached ⊢
  split at hreached
  · rename_i hhere
    rw [if_pos hhere]
    exact hreached
  · rename_i hhere
    rw [if_neg hhere]
    split at hreached
    · rename_i hup
      rw [if_pos hup]
      exact hreached
    · rename_i hup
      rw [if_neg hup]
      rcases bind_eq_ok_iff.mp hreached with ⟨found, hchild, hreached⟩
      rcases child_eq_ok_iff.mp hchild with ⟨hshort, hfound⟩
      split at hreached
      · cases hreached
      · cases hreached
      -- a step into a directory: it is still one later
      · have hlater := h.directory _ hfound
        rw [child_eq_ok_iff.mpr ⟨hshort, hlater⟩]
        exact hreached

/-- Steps through directories can still be taken. -/
theorem Grows.enterAll (h : Grows disk later) {directory reached : Place} {steps : List String}
    (hreached : disk.enterAll directory steps = .ok reached) :
    later.enterAll directory steps = .ok reached := by
  unfold Disk.enterAll at hreached ⊢
  -- step by step, each from the directory that the step before reached
  induction steps generalizing directory with
  | nil => exact hreached
  | cons step steps ih =>
      rw [List.foldlM_cons] at hreached ⊢
      rcases bind_eq_ok_iff.mp hreached with ⟨next, hnext, hreached⟩
      exact bind_eq_ok_iff.mpr ⟨next, h.enter hnext, ih hreached⟩

/-- A path leads where it led before. -/
theorem Grows.locate (h : Grows disk later) {found : Place × Option String}
    (hfound : disk.locate p = .ok found) : later.locate p = .ok found := by
  have horigin : later.origin p = disk.origin p := by
    rw [origin, origin, h.base]
  rw [locate_eq] at hfound ⊢
  split at hfound
  · cases hfound
  · rename_i hend
    split at hfound
    · cases hfound
    · rename_i hlong
      rw [if_neg hend, if_neg hlong, horigin]
      -- the origin is the same, and so are the directories entered from it
      cases hdirectory : disk.enterAll (disk.origin p) (lastName (steps p)).1 with
      | error cause =>
          rw [hdirectory] at hfound
          cases hfound
      | ok directory =>
          rw [hdirectory] at hfound
          rw [h.enterAll hdirectory]
          exact hfound

/-- A path leads ever after to the place to which it leads. -/
theorem Grows.place? (h : Grows disk later) (hplace : disk.place? p = some place) :
    later.place? p = some place := by
  rcases place?_eq_some_iff.mp hplace with ⟨directory, name, hlocate, hrest⟩
  exact place?_eq_some_iff.mpr ⟨directory, name, h.locate hlocate, hrest⟩

/-! ## Making directories -/

/-- A later tree that has nothing but directories more. -/
structure AddsDirectories (disk later : Disk) : Prop where
  base : later.base = disk.base
  entry : ∀ place, later.entry? place = disk.entry? place ∨
    disk.entry? place = none ∧ later.entry? place = some .directory

theorem AddsDirectories.refl (disk : Disk) : AddsDirectories disk disk where
  base := rfl
  entry _ := Or.inl rfl

/-- Directories are added one after the other. -/
theorem AddsDirectories.trans (h : AddsDirectories disk middle)
    (h' : AddsDirectories middle later) : AddsDirectories disk later where
  base := h'.base.trans h.base
  entry place := by
    rcases h.entry place with hsame | ⟨hnone, hmade⟩
    · rw [← hsame]
      exact h'.entry place
    · rcases h'.entry place with hsame | ⟨hnone', _⟩
      · exact Or.inr ⟨hnone, hsame.trans hmade⟩
      -- a place is not filled twice
      · rw [hnone'] at hmade
        cases hmade

/-- What was there is as it was. -/
theorem AddsDirectories.entry?_eq (h : AddsDirectories disk later) {entry : Entry}
    (hentry : disk.entry? place = some entry) : later.entry? place = some entry := by
  rcases h.entry place with hsame | ⟨hnone, _⟩
  · rw [hsame, hentry]
  · rw [hnone] at hentry
    cases hentry

/-- A disk grows by directories that are added. -/
theorem AddsDirectories.grows (h : AddsDirectories disk later) : Grows disk later where
  base := h.base
  directory _ hplace := h.entry?_eq hplace
  file _ bytes hplace := ⟨bytes, h.entry?_eq hplace⟩

/-- A directory is made where nothing stands. -/
theorem create_eq_ok (h : disk.create p = .ok later) :
    ∃ directory name, disk.locate p = .ok (directory, some name) ∧
      name.utf8ByteSize ≤ nameLimit ∧ disk.entry? (name :: directory) = none ∧
      later = disk.set (name :: directory) .directory := by
  rcases bind_eq_ok_iff.mp h with ⟨⟨directory, _ | name⟩, hlocate, h⟩
  · cases h
  · rcases bind_eq_ok_iff.mp h with ⟨found, hchild, h⟩
    rcases child_eq_ok_iff.mp hchild with ⟨hshort, hfound⟩
    cases found with
    | some entry => cases h
    | none => exact ⟨directory, name, hlocate, hshort, hfound, (Except.ok.inj h).symm⟩

/-- To create a directory is to add it. -/
theorem addsDirectories_of_create (h : disk.create p = .ok later) : AddsDirectories disk later := by
  rcases create_eq_ok h with ⟨directory, name, _, _, hnone, rfl⟩
  refine ⟨rfl, fun place => ?_⟩
  rw [entry?_set disk (List.cons_ne_nil name directory)]
  split
  · rename_i hplace
    rw [hplace]
    exact Or.inr ⟨hnone, rfl⟩
  · exact Or.inl rfl

/-- Either a directory is made, or one is there already. -/
theorem ensure_eq_ok (h : disk.ensure p = .ok later) :
    disk.create p = .ok later ∨ (later = disk ∧ disk.isDirectory p = true) := by
  unfold ensure at h
  split at h
  · split at h
    · rename_i hdirectory
      exact Or.inr ⟨(Except.ok.inj h).symm, hdirectory⟩
    · cases h
  · exact Or.inl h

/-- To ensure a directory is to add it, or nothing. -/
theorem addsDirectories_of_ensure (h : disk.ensure p = .ok later) : AddsDirectories disk later := by
  rcases ensure_eq_ok h with h | ⟨rfl, _⟩
  · exact addsDirectories_of_create h
  · exact .refl _

/-- What holds whichever of some directories is made goes on holding while all of them are. -/
theorem ensureAll_preserves {holds : Disk → Prop} {ps : List Path}
    (hensure : ∀ p ∈ ps, ∀ before after, before.ensure p = .ok after → holds before → holds after)
    (hdisk : holds disk) : holds (ensureAll ps disk).2 := by
  induction ps with
  | nil => exact hdisk
  | cons p above ih =>
      have hp := hensure p List.mem_cons_self
      have habove := ih fun q hq => hensure q (List.mem_cons_of_mem p hq)
      rw [ensureAll]
      split
      · rename_i later hfirst
        exact hp disk later hfirst hdisk
      · -- one above it is missing, so these are made first
        rcases hran : ensureAll above disk with ⟨_ | _, middle⟩
        · rw [hran] at habove
          exact habove
        · rw [hran] at habove
          simp only
          split
          · rename_i later hsecond
            exact hp middle later hsecond habove
          · exact habove
      · exact hdisk

/-- The first directory is made at once, or after those above it. -/
theorem ensureAll_cons_eq_ok {above : List Path}
    (h : ensureAll (p :: above) disk = (.ok (), later)) :
    disk.ensure p = .ok later ∨
      ∃ middle, ensureAll above disk = (.ok (), middle) ∧ middle.ensure p = .ok later := by
  rw [ensureAll] at h
  split at h
  · rename_i made hfirst
    cases h
    exact Or.inl hfirst
  · rcases habove : ensureAll above disk with ⟨_ | _, middle⟩
    · rw [habove] at h
      cases h
    · rw [habove] at h
      simp only at h
      split at h
      · rename_i made hsecond
        cases h
        exact Or.inr ⟨middle, rfl, hsecond⟩
      · cases h
  · cases h

/-- Making directories adds directories only, also when it fails. -/
theorem addsDirectories_makeDirectories (disk : Disk) (p : Path) :
    AddsDirectories disk (disk.makeDirectories p).2 := by
  refine ensureAll_preserves (fun q _ before after hmade h => ?_) (.refl disk)
  exact h.trans (addsDirectories_of_ensure hmade)

/-! ## Files that are written -/

/-- A later tree in which no file has other bytes but those to which some paths lead. -/
structure Changes (paths : Path → Prop) (disk later : Disk) : Prop where
  grows : Grows disk later
  file : ∀ place bytes, disk.entry? place = some (.file bytes) →
    later.entry? place = some (.file bytes) ∨ ∃ p, paths p ∧ later.place? p = some place

variable {paths : Path → Prop}

/-- A disk that is left alone has not been changed. -/
theorem Changes.refl (paths : Path → Prop) (disk : Disk) : Changes paths disk disk where
  grows := .refl disk
  file _ _ h := Or.inl h

/-- What is changed twice has been changed at the same paths. -/
theorem Changes.trans (h : Changes paths disk middle) (h' : Changes paths middle later) :
    Changes paths disk later where
  grows := h.grows.trans h'.grows
  file place bytes hplace := by
    rcases h.file place bytes hplace with hsame | ⟨p, hp, hleads⟩
    · exact h'.file place bytes hsame
    -- a path still leads where it led, so the first changes need not be told anew
    · exact Or.inr ⟨p, hp, h'.grows.place? hleads⟩

/-- What is changed at some paths is changed at more of them. -/
theorem Changes.mono {more : Path → Prop} (h : Changes paths disk later)
    (hmore : ∀ p, paths p → more p) : Changes more disk later where
  grows := h.grows
  file place bytes hplace := by
    rcases h.file place bytes hplace with hsame | ⟨p, hp, hleads⟩
    · exact Or.inl hsame
    · exact Or.inr ⟨p, hmore p hp, hleads⟩

/-- Directories are no files. -/
theorem AddsDirectories.changes (h : AddsDirectories disk later) : Changes paths disk later where
  grows := h.grows
  file _ _ hplace := Or.inl (h.entry?_eq hplace)

/-- Where a file may be written one is put. -/
theorem changes_set (hp : disk.writable p = .ok place) (bytes : ByteArray) :
    Changes (· = p) disk (disk.set place (.file bytes)) := by
  rcases writable_eq_ok_iff.mp hp with ⟨hleads, hfree⟩
  have hne := place?_ne_nil hleads
  have hgrows := Grows.set_file hne hfree bytes
  refine ⟨hgrows, fun other bytes' hother => ?_⟩
  rw [entry?_set disk hne]
  split
  -- the place may have been empty; the path leads to it only when the file is there
  · rename_i hsame
    exact Or.inr ⟨p, rfl, hsame ▸ hgrows.place? hleads⟩
  · exact Or.inl hother

/-- Writing changes the file that is written. -/
theorem changes_write (h : disk.write p bytes = .ok later) :
    Changes (· = p) disk later := by
  rcases bind_eq_ok_iff.mp h with ⟨place, hplace, h⟩
  rw [← Except.ok.inj h]
  exact changes_set hplace bytes

/-- Two files one after the other in the same place are the second. -/
theorem set_set (disk : Disk) (place : Place) (first second : Entry) :
    (disk.set place first).set place second = disk.set place second := by
  -- the place keeps its position among the entries, so the trees are equal, not just alike
  have hput : put place second (put place first disk.entries) = put place second disk.entries := by
    induction disk.entries with
    | nil => simp [put]
    | cons entry entries ih =>
        rcases entry with ⟨other, old⟩
        by_cases hother : other = place
        · simp [put, hother]
        · simp [put, hother, ih]
  exact congrArg (Disk.mk · disk.base) hput

/-- A copy puts a file where one may be written. -/
theorem copy_eq_ok {source target : Path} (h : disk.copy source target = .ok later) :
    ∃ origin old place, disk.find source = .ok (origin, .file old) ∧
      disk.writable target = .ok place ∧
      later = disk.set place (.file ((disk.set place (.file .empty)).bytes origin)) := by
  rcases bind_eq_ok_iff.mp h with ⟨⟨origin, _ | _⟩, hsource, h⟩
  · rcases bind_eq_ok_iff.mp h with ⟨place, htarget, h⟩
    exact ⟨origin, _, place, hsource, htarget, (Except.ok.inj h).symm.trans (set_set ..)⟩
  · cases h

/-- Copying changes the target. -/
theorem changes_copy {source target : Path} (h : disk.copy source target = .ok later) :
    Changes (· = target) disk later := by
  rcases copy_eq_ok h with ⟨_, _, place, _, htarget, rfl⟩
  exact changes_set htarget _

/-- What an operation that fails does is nothing. -/
theorem changes_settle {report : Cause → BundleError} {result : Except Cause Disk}
    (h : ∀ later, result = .ok later → Changes paths disk later) :
    Changes paths disk (disk.settle report result).2 := by
  cases result with
  | error cause => exact .refl paths disk
  | ok later => exact h later rfl

end OperatorBundle.Store.Disk
