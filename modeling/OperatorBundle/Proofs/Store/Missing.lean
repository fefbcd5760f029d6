import OperatorBundle.Proofs.Store.Tree

/-!
# What is missing

A path leads nowhere because of one step: all steps before it enter directories, and nothing has the
name of this one.  `Disk.notFound_decided` says of every operation that blames a path when it does so.
Reading and listing blame a path exactly if it leads nowhere.  Copying blames its source also where the
directory for the copy is missing, and the source is there (`Disk.not_missing_of_notFound`).
-/

namespace OperatorBundle.Store.Disk

variable {disk : Disk} {directory reached : Place} {step name : String} {steps : List String}
  {p : Path}

/-! ## A step that is missing -/

/-- Has nothing in a directory this name, although something could? -/
structure LacksName (disk : Disk) (directory : Place) (name : String) : Prop where
  ne_here : name ≠ "."
  ne_up : name ≠ ".."
  short : name.utf8ByteSize ≤ nameLimit
  none : disk.entry? (name :: directory) = none

/-- Do some steps from a directory enter directories up to one whose name nothing has? -/
inductive Misses (disk : Disk) : Place → List String → Prop
  | here {directory : Place} {name : String} (more : List String)
      (h : disk.LacksName directory name) : Misses disk directory (name :: more)
  | later {directory next : Place} {step : String} {more : List String}
      (henter : disk.enter directory step = .ok next) (h : Misses disk next more) :
      Misses disk directory (step :: more)

theorem enter_eq_missing_iff :
    disk.enter directory step = .error .missing ↔ disk.LacksName directory step := by
  unfold enter
  -- the step to the directory itself and the step up go through always
  by_cases hhere : step = "."
  · rw [if_pos (beq_iff_eq.mpr hhere)]
    constructor
    · intro h
      cases h
    · intro h
      exact absurd hhere h.ne_here
  by_cases hup : step = ".."
  · rw [if_neg (by simpa using hhere), if_pos (beq_iff_eq.mpr hup)]
    constructor
    · intro h
      cases h
    · intro h
      exact absurd hup h.ne_up
  rw [if_neg (by simpa using hhere), if_neg (by simpa using hup)]
  constructor
  · intro h
    rcases bind_eq_error_iff.mp h with hchild | ⟨found, hchild, h⟩
    -- to look a name up may fail, but only because the name is too long
    · exact absurd hchild (child_ne_missing disk directory step)
    · rcases found with _ | (_ | _)
      · obtain ⟨hshort, hnone⟩ := child_eq_ok_iff.mp hchild
        exact ⟨hhere, hup, hshort, hnone⟩
      · cases h
      · cases h
  · intro h
    rw [child_eq_ok_iff.mpr ⟨h.short, h.none⟩]
    rfl

/-- Steps cannot be followed for want of a directory exactly if one of them is missing. -/
theorem enterAll_eq_missing_iff :
    disk.enterAll directory steps = .error .missing ↔ disk.Misses directory steps := by
  induction steps generalizing directory with
  | nil =>
      constructor
      · intro h
        cases h
      · intro h
        cases h
  | cons step more ih =>
      rw [enterAll_cons, bind_eq_error_iff, enter_eq_missing_iff]
      constructor
      · intro h
        rcases h with hname | ⟨next, henter, hmore⟩
        · exact .here more hname
        · exact .later henter (ih.mp hmore)
      · intro h
        cases h with
        | here _ hname => exact Or.inl hname
        | later henter hmore => exact Or.inr ⟨_, henter, ih.mpr hmore⟩

/-- The last of some steps is missing, or one before it. -/
theorem misses_concat_iff :
    disk.Misses directory (steps ++ [name]) ↔
      disk.Misses directory steps ∨
        ∃ reached, disk.enterAll directory steps = .ok reached ∧ disk.LacksName reached name := by
  have hconcat : disk.enterAll directory (steps ++ [name]) =
      disk.enterAll directory steps >>= fun reached => disk.enter reached name := by
    simp [enterAll]
  rw [← enterAll_eq_missing_iff, ← enterAll_eq_missing_iff, hconcat, bind_eq_error_iff]
  simp only [enter_eq_missing_iff]

/-! ## A path that leads nowhere -/

/-- Does the system follow this path at all? -/
def IsTaken (p : Path) : Prop :=
  p.text.toList.contains '\x00' = false ∧ p.text.utf8ByteSize ≤ pathLimit

/-- Is something missing on the way of a path, or at its end? -/
def Lacks (disk : Disk) (p : Path) : Prop :=
  IsTaken p ∧ disk.Misses (disk.origin p) (Disk.steps p)

/-- Is something missing on the way to the last name of a path? -/
def LacksDirectory (disk : Disk) (p : Path) : Prop :=
  IsTaken p ∧ disk.Misses (disk.origin p) (lastName (Disk.steps p)).1

/-- The last step of a path is a name, or all of its steps enter a directory. -/
theorem lastName_cases (steps : List String) :
    (∃ before name, steps = before ++ [name] ∧ name ≠ "." ∧ name ≠ ".." ∧
      lastName steps = (before, some name)) ∨ lastName steps = (steps, none) := by
  rcases List.eq_nil_or_concat steps with rfl | ⟨before, name, rfl⟩
  · exact Or.inr rfl
  · rw [List.concat_eq_append]
    by_cases h : name = "." ∨ name = ".."
    · right
      rcases h with rfl | rfl
      · simp [lastName]
      · simp [lastName]
    · rw [not_or] at h
      left
      exact ⟨before, name, rfl, h.1, h.2, by simp [lastName, h.1, h.2]⟩

/-- A path that the system takes is followed as far as its steps before the last name. -/
theorem locate_of_isTaken (disk : Disk) (h : IsTaken p) :
    disk.locate p =
      (disk.enterAll (disk.origin p) (lastName (Disk.steps p)).1).map
        (·, (lastName (Disk.steps p)).2) := by
  rw [locate_eq, if_neg (by rw [h.1]; exact Bool.false_ne_true), if_neg (Nat.not_lt.mpr h.2)]

/-- A path that the system does not take is refused before anything is looked up. -/
theorem locate_of_not_isTaken (disk : Disk) (h : ¬ IsTaken p) :
    ∃ cause, cause ≠ .missing ∧ disk.locate p = .error cause := by
  by_cases hend : p.text.toList.contains '\x00' = true
  · exact ⟨.endInside, by decide, by rw [locate_eq, if_pos hend]⟩
  by_cases hlong : pathLimit < p.text.utf8ByteSize
  · exact ⟨.nameTooLong, by decide, by rw [locate_eq, if_neg hend, if_pos hlong]⟩
  · exact absurd ⟨Bool.eq_false_iff.mpr hend, Nat.not_lt.mp hlong⟩ h

theorem locate_eq_missing_iff :
    disk.locate p = .error .missing ↔ disk.LacksDirectory p := by
  unfold LacksDirectory
  by_cases htaken : IsTaken p
  · rw [disk.locate_of_isTaken htaken, and_iff_right htaken, ← enterAll_eq_missing_iff]
    cases disk.enterAll (disk.origin p) (lastName (Disk.steps p)).1 with
    | error cause =>
        constructor
        · intro h
          exact congrArg Except.error (Except.error.inj h)
        · intro h
          rw [h]
          rfl
    | ok reached =>
        constructor
        · intro h
          cases h
        · intro h
          cases h
  · obtain ⟨cause, hcause, hlocate⟩ := disk.locate_of_not_isTaken htaken
    rw [hlocate]
    constructor
    · intro h
      exact absurd (Except.error.inj h) hcause
    · intro h
      exact absurd h.1 htaken

/-- The last name of a path is looked up in the directory to which the steps before it lead. -/
theorem find_eq_missing_of_locate (hlocate : disk.locate p = .ok (directory, some name))
    (hhere : name ≠ ".") (hup : name ≠ "..") :
    disk.find p = .error .missing ↔ disk.LacksName directory name := by
  by_cases hlong : nameLimit < name.utf8ByteSize
  · rw [find_of_long hlocate hlong]
    constructor
    · intro h
      cases h
    · intro h
      exact absurd hlong (Nat.not_lt.mpr h.short)
  · rw [find_of_locate hlocate (Nat.not_lt.mp hlong)]
    constructor
    · intro h
      split at h
      · rename_i hnone
        exact ⟨hhere, hup, Nat.not_lt.mp hlong, hnone⟩
      · split at h
        · cases h
        · cases h
      · cases h
    · intro h
      rw [h.none]

/-- A path is said to lead nowhere exactly if one of its steps is missing. -/
theorem find_eq_missing_iff : disk.find p = .error .missing ↔ disk.Lacks p := by
  unfold Lacks
  by_cases htaken : IsTaken p
  · have hlocate := disk.locate_of_isTaken htaken
    rw [and_iff_right htaken]
    rcases lastName_cases (Disk.steps p) with ⟨before, name, hsteps, hhere, hup, hlast⟩ | hlast
    · -- the steps before the last name are entered, and the name is looked up there
      rw [hlast] at hlocate
      rw [hsteps, misses_concat_iff, ← enterAll_eq_missing_iff]
      cases henter : disk.enterAll (disk.origin p) before with
      | error cause =>
          rw [henter] at hlocate
          rw [find_of_locate_error hlocate]
          simp
      | ok reached =>
          rw [henter] at hlocate
          rw [find_eq_missing_of_locate hlocate hhere hup]
          simp
    · -- all steps enter a directory
      rw [hlast] at hlocate
      rw [← enterAll_eq_missing_iff]
      cases henter : disk.enterAll (disk.origin p) (Disk.steps p) with
      | error cause =>
          rw [henter] at hlocate
          rw [find_of_locate_error hlocate]
          simp
      | ok reached =>
          rw [henter] at hlocate
          rw [find_of_locate_none hlocate]
          simp
  · obtain ⟨cause, hcause, hlocate⟩ := disk.locate_of_not_isTaken htaken
    rw [find_of_locate_error hlocate]
    constructor
    · intro h
      exact absurd (Except.error.inj h) hcause
    · intro h
      exact absurd h.1 htaken

/-- Where a step is missing nothing stands at the path. -/
theorem Lacks.find_ne_ok (h : disk.Lacks p) (found : Place × Entry) : disk.find p ≠ .ok found := by
  intro hfound
  rw [find_eq_missing_iff.mpr h] at hfound
  cases hfound

/-! ## Operations that blame a path -/

section

variable {α : Type} {path : String} {result : Except Cause α} {source target : Path}

/-- A path is blamed for what is missing, and for nothing else. -/
theorem mapError_blaming_eq_notFound_iff :
    result.mapError (Cause.blaming p) = .error (.notFound path) ↔
      path = p.text ∧ result = .error .missing := by
  cases result with
  | ok a =>
      constructor
      · intro h
        cases h
      · intro h
        cases h.2
  | error cause =>
      cases cause with
      | missing =>
          constructor
          · intro h
            exact ⟨(BundleError.notFound.inj (Except.error.inj h)).symm, rfl⟩
          · intro h
            rw [h.1]
            rfl
      -- every other cause is told as another failure
      | _ =>
          constructor
          · intro h
            cases h
          · intro h
            cases h.2

theorem read_eq_missing_iff : disk.read p = .error .missing ↔ disk.Lacks p := by
  rw [← find_eq_missing_iff]
  constructor
  · intro h
    exact find_of_read_missing h
  · intro h
    exact bind_eq_error_iff.mpr (Or.inl h)

theorem list_eq_missing_iff : disk.list p = .error .missing ↔ disk.Lacks p := by
  rw [← find_eq_missing_iff]
  constructor
  · intro h
    exact find_of_list_missing h
  · intro h
    exact bind_eq_error_iff.mpr (Or.inl h)

/-- A file need not be there to be written, but the directory for it must be. -/
theorem writable_eq_missing_iff : disk.writable p = .error .missing ↔ disk.LacksDirectory p := by
  rw [← locate_eq_missing_iff]
  constructor
  · intro h
    -- behind the directory every failure has another cause than that something is missing
    rcases bind_eq_error_iff.mp h with hlocate | ⟨⟨directory, _ | name⟩, _, h⟩
    · exact hlocate
    · cases h
    · simp only at h
      split at h
      · cases h
      · rcases bind_eq_error_iff.mp h with hchild | ⟨found, _, h⟩
        · exact absurd hchild (child_ne_missing disk directory name)
        · split at h
          · cases h
          · cases h
  · intro h
    exact bind_eq_error_iff.mpr (Or.inl h)

/-- A copy misses its source, or the directory that it goes to. -/
theorem copy_eq_missing_iff :
    disk.copy source target = .error .missing ↔
      disk.Lacks source ∨
        (∃ place bytes, disk.find source = .ok (place, .file bytes)) ∧ disk.LacksDirectory target := by
  rw [← find_eq_missing_iff, ← writable_eq_missing_iff]
  constructor
  · intro h
    rcases bind_eq_error_iff.mp h with hfind | ⟨⟨place, bytes | _⟩, hfind, h⟩
    · exact Or.inl hfind
    · rcases bind_eq_error_iff.mp h with hwritable | ⟨_, _, h⟩
      · exact Or.inr ⟨⟨place, bytes, hfind⟩, hwritable⟩
      · cases h
    · cases h
  · intro h
    rcases h with hfind | ⟨⟨place, bytes, hfind⟩, hwritable⟩
    · exact bind_eq_error_iff.mpr (Or.inl hfind)
    · refine bind_eq_error_iff.mpr (Or.inr ⟨_, hfind, ?_⟩)
      exact bind_eq_error_iff.mpr (Or.inl hwritable)

theorem settle_eq_notFound_iff {result : Except Cause Disk} :
    (disk.settle (Cause.blaming p) result).1 = .error (.notFound path) ↔
      path = p.text ∧ result = .error .missing := by
  rw [← mapError_blaming_eq_notFound_iff]
  cases result with
  | ok later =>
      constructor
      · intro h
        cases h
      · intro h
        cases h
  | error cause =>
      constructor
      · intro h
        exact congrArg Except.error (Except.error.inj h)
      · intro h
        exact congrArg Except.error (Except.error.inj h)

end

/-- When an operation on a tree reports that a path was not found.  What is read or listed is then
not there.  What is copied is then not there, or it is a file, and the directory for the copy is what
is not there.  The report always names what was to be read, and the tree stays as it was. -/
theorem notFound_decided (disk : Disk) (path : String) :
    (∀ p, ((FileStore.read p : StoreM Disk String).run disk).1 = .error (.notFound path) ↔
      path = p.text ∧ disk.Lacks p) ∧
    (∀ p, ((FileStore.list p : StoreM Disk (List Path)).run disk).1 = .error (.notFound path) ↔
      path = p.text ∧ disk.Lacks p) ∧
    (∀ source target,
      ((FileStore.copy source target : StoreM Disk Unit).run disk).1 = .error (.notFound path) ↔
        path = source.text ∧ (disk.Lacks source ∨
          (∃ place bytes, disk.find source = .ok (place, .file bytes)) ∧
            disk.LacksDirectory target)) ∧
    (∀ source target,
      ((FileStore.copy source target : StoreM Disk Unit).run disk).1 = .error (.notFound path) →
        ((FileStore.copy source target : StoreM Disk Unit).run disk).2 = disk) ∧
    ∀ p, disk.Lacks p → ∀ found, disk.find p ≠ .ok found := by
  refine ⟨fun p => ?_, fun p => ?_, fun source target => ?_, fun source target h => ?_, fun p h => ?_⟩
  · rw [← read_eq_missing_iff]
    exact mapError_blaming_eq_notFound_iff
  · rw [← list_eq_missing_iff]
    exact mapError_blaming_eq_notFound_iff
  · rw [← copy_eq_missing_iff]
    exact settle_eq_notFound_iff
  · have hmissing := (settle_eq_notFound_iff.mp h).2
    show (disk.settle (Cause.blaming source) (disk.copy source target)).2 = disk
    rw [hmissing]
    rfl
  · exact h.find_ne_ok

/-- A copy into a directory that is missing is reported as if the file that is copied were. -/
theorem not_missing_of_notFound :
    ¬ ∀ (disk : Disk) (source target : Path) (path : String),
      ((FileStore.copy source target : StoreM Disk Unit).run disk).1 = .error (.notFound path) →
        ∀ found, disk.find ⟨path⟩ ≠ .ok found := by
  intro htruthful
  -- the tree that a file leaves which is written to an empty one
  let disk : Disk := ((FileStore.write ⟨"a"⟩ "" : StoreM Disk Unit).run {}).2
  have hcopy : ((FileStore.copy ⟨"a"⟩ ⟨"d/a"⟩ : StoreM Disk Unit).run disk).1 =
      .error (.notFound "a") := rfl
  have hfind : disk.find ⟨"a"⟩ = .ok (["a"], .file "".toUTF8) := by
    rw [find_eq_file_iff]
    decide +kernel
  exact htruthful disk ⟨"a"⟩ ⟨"d/a"⟩ "a" hcopy _ hfind

end OperatorBundle.Store.Disk
