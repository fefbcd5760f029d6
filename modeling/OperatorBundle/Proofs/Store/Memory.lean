import OperatorBundle.Proofs.Path.Components
import OperatorBundle.Store.Memory

/-!
# The store in memory as a map

A memory is judged by what it shows: the text at a path and the directories that were made.  Paths
count by their components.  `Memory.IsMap` says that no two files lie at one path, which every
operation keeps; a memory with this property is a finite map from places to texts.
-/

namespace OperatorBundle

/-! ## Running computations -/

namespace StoreM

variable {σ α β : Type}

/-- What follows runs on the store that the first part leaves behind, unless that part failed. -/
theorem run_bind (x : StoreM σ α) (f : α → StoreM σ β) (s : σ) :
    (x >>= f).run s =
      match x.run s with
      | (.ok a, t) => (f a).run t
      | (.error e, t) => (.error e, t) := by
  have hx : (x >>= f).run s = (ExceptT.bindCont f (x.run s).1).run (x.run s).2 := rfl
  rw [hx]
  rcases x.run s with ⟨r, t⟩
  cases r <;> rfl

/-- Two steps succeed only if the second succeeds from where the first has come. -/
theorem exists_of_run_bind_eq_ok {x : StoreM σ α} {f : α → StoreM σ β} {s t : σ} {b : β}
    (h : (x >>= f).run s = (.ok b, t)) :
    ∃ a middle, x.run s = (.ok a, middle) ∧ (f a).run middle = (.ok b, t) := by
  rw [run_bind] at h
  rcases hx : x.run s with ⟨e | a, middle⟩
  · rw [hx] at h
    cases h
  · rw [hx] at h
    exact ⟨a, middle, rfl, h⟩

/-- A handler runs on the store that the failure left behind. -/
theorem run_tryCatch (x : StoreM σ α) (handler : BundleError → StoreM σ α) (s : σ) :
    (tryCatch x handler).run s =
      match x.run s with
      | (.ok a, t) => (.ok a, t)
      | (.error e, t) => (handler e).run t := by
  have hcatch : (tryCatch x handler : StoreM σ α) = ExceptT.tryCatch x handler := rfl
  rw [hcatch]
  unfold run ExceptT.tryCatch
  rw [ExceptT.run_mk, StateT.run_bind]
  rcases hx : (ExceptT.run x).run s with ⟨e | a, t⟩
  · rw [show StateT.run x s = (.error e, t) from hx]
    rfl
  · rw [show StateT.run x s = (.ok a, t) from hx]
    rfl

@[simp] theorem run_pure (a : α) (s : σ) : (pure a : StoreM σ α).run s = (.ok a, s) := rfl

/-- An outcome that is given leaves the store alone. -/
@[simp] theorem run_ofExcept (r : Except BundleError α) (s : σ) :
    (MonadExcept.ofExcept r : StoreM σ α).run s = (r, s) := by
  cases r <;> rfl

end StoreM

namespace Store.Memory

variable {store : Memory}

/-- Paths lead to the same place just if their components are the same. -/
@[simp] theorem leadToSame_iff (p q : Path) :
    leadToSame p q = true ↔ p.components = q.components := by
  simp [leadToSame]

/-! ## Texts -/

/-- The text at a path. -/
def text? (store : Memory) (p : Path) : Option String := contents? p store.files

/-- No two files lie at one path. -/
def IsMap (store : Memory) : Prop :=
  store.files.Pairwise fun a b => a.1.components ≠ b.1.components

/-- A text that is written is found at its path and at no other. -/
theorem text?_write (store : Memory) (p q : Path) (text : String) :
    (store.write p text).text? q =
      if p.components = q.components then some text else store.text? q := by
  simp [text?, write, contents?_put]

/-- Where two paths lead to the same place they show the same text. -/
theorem text?_congr (store : Memory) {p q : Path} (h : p.components = q.components) :
    store.text? p = store.text? q := by
  unfold text?
  induction store.files with
  | nil => rfl
  | cons file files ih => simp [contents?, leadToSame, h, ih]

/-- A file is read just if the store holds it. -/
theorem read_eq_ok_iff {p : Path} {text : String} :
    store.read p = .ok text ↔ store.text? p = some text := by
  unfold read text?
  split <;> simp_all

/-- A file that the store does not hold is missing. -/
theorem read_eq_error {p : Path} (h : store.text? p = none) :
    store.read p = .error (.notFound p.text) := by
  unfold text? at h
  rw [read, h]

/-- Reading depends on nothing but the text that is shown. -/
theorem read_congr {a b : Memory} {p : Path} (h : a.text? p = b.text? p) : a.read p = b.read p := by
  unfold text? at h
  rw [read, read, h]

/-- Where paths differ pairwise, every file is found. -/
theorem contents?_of_mem {files : List (Path × String)}
    (h : files.Pairwise fun a b => a.1.components ≠ b.1.components) {p : Path} {text : String}
    (hmem : (p, text) ∈ files) : contents? p files = some text := by
  induction files with
  | nil => exact absurd hmem List.not_mem_nil
  | cons file files ih =>
      rw [List.pairwise_cons] at h
      rcases List.mem_cons.mp hmem with rfl | hmem
      · simp [contents?, leadToSame]
      · have hne : file.1.components ≠ p.components := h.1 (p, text) hmem
        rw [contents?, if_neg (by simpa [leadToSame] using hne)]
        exact ih h.2 hmem

/-- A file that is stored is found. -/
theorem text?_of_mem (hmap : store.IsMap) {p : Path} {text : String}
    (hmem : (p, text) ∈ store.files) : store.text? p = some text :=
  contents?_of_mem hmap hmem

/-- What is found at a path is stored under some spelling of it. -/
theorem exists_mem_of_text? {p : Path} {text : String} (h : store.text? p = some text) :
    ∃ q, (q, text) ∈ store.files ∧ q.components = p.components := by
  unfold text? at h
  generalize store.files = files at h ⊢
  induction files with
  | nil => cases h
  | cons file files ih =>
      rw [contents?] at h
      split at h
      · rename_i hsame
        refine ⟨file.1, ?_, (leadToSame_iff _ _).mp hsame⟩
        rw [← Option.some.inj h]
        exact List.mem_cons_self
      · rcases ih h with ⟨q, hq, hsame⟩
        exact ⟨q, List.mem_cons_of_mem _ hq, hsame⟩

/-! ## Writing -/

/-- Writing leaves the files at other places as they are. -/
theorem mem_put_of_ne {files : List (Path × String)} {p q : Path} {text other : String}
    (hne : q.components ≠ p.components) :
    (q, other) ∈ put p text files ↔ (q, other) ∈ files := by
  induction files with
  | nil =>
      have hpair : (q, other) ≠ (p, text) := fun e => hne (by rw [(Prod.mk.inj e).1])
      simp only [put, List.mem_singleton, hpair, List.not_mem_nil]
  | cons file files ih =>
      rcases file with ⟨r, old⟩
      by_cases hr : r.components = p.components
      · have hpair : ∀ t, (q, other) ≠ (r, t) := fun t e => hne (by rw [(Prod.mk.inj e).1, hr])
        simp only [put, leadToSame, hr, beq_self_eq_true, if_true, List.mem_cons, hpair, false_or]
      · simp [put, leadToSame, hr, ih]

/-- A path that is written to is one that was there, or the one that is given. -/
theorem components_of_mem_put {files : List (Path × String)} {p : Path} {text : String}
    {file : Path × String} (h : file ∈ put p text files) :
    file.1.components = p.components ∨ file ∈ files := by
  by_cases hsame : file.1.components = p.components
  · exact Or.inl hsame
  · exact Or.inr ((mem_put_of_ne hsame).mp h)

/-- No other spelling of a path is made up. -/
theorem fst_of_mem_put {files : List (Path × String)} {p : Path} {text : String}
    {file : Path × String} (h : file ∈ put p text files) :
    file.1 = p ∨ ∃ old ∈ files, old.1 = file.1 := by
  induction files with
  | nil =>
      rw [List.mem_singleton.mp h]
      exact Or.inl rfl
  | cons first files ih =>
      rcases first with ⟨q, old⟩
      rw [put] at h
      split at h
      · rcases List.mem_cons.mp h with rfl | h
        · exact Or.inr ⟨(q, old), List.mem_cons_self, rfl⟩
        · exact Or.inr ⟨file, List.mem_cons_of_mem _ h, rfl⟩
      · rcases List.mem_cons.mp h with rfl | h
        · exact Or.inr ⟨(q, old), List.mem_cons_self, rfl⟩
        · rcases ih h with hnew | ⟨there, hthere, hsame⟩
          · exact Or.inl hnew
          · exact Or.inr ⟨there, List.mem_cons_of_mem _ hthere, hsame⟩

/-- Paths differ pairwise when a file has been put among others. -/
theorem pairwise_put {files : List (Path × String)} (p : Path) (text : String)
    (h : files.Pairwise fun a b => a.1.components ≠ b.1.components) :
    (put p text files).Pairwise fun a b => a.1.components ≠ b.1.components := by
  induction files with
  | nil => exact List.pairwise_singleton _ _
  | cons file files ih =>
      rcases file with ⟨r, old⟩
      rw [List.pairwise_cons] at h
      by_cases hr : r.components = p.components
      · rw [put, if_pos ((leadToSame_iff _ _).mpr hr), List.pairwise_cons]
        exact h
      · rw [put, if_neg (by simpa [leadToSame] using hr), List.pairwise_cons]
        refine ⟨fun b hb => ?_, ih h.2⟩
        rcases components_of_mem_put hb with hb | hb
        · exact fun e => hr (e.trans hb)
        · exact h.1 b hb

/-- A store holds each file once when one has been written. -/
theorem IsMap.write (hmap : store.IsMap) (p : Path) (text : String) :
    (store.write p text).IsMap := pairwise_put p text hmap

/-- Writing what is there already changes nothing. -/
theorem put_eq_self {files : List (Path × String)} {p : Path} {text : String}
    (h : contents? p files = some text) : put p text files = files := by
  induction files with
  | nil => cases h
  | cons file files ih =>
      rcases file with ⟨r, old⟩
      by_cases hr : r.components = p.components
      · have hsame := (leadToSame_iff r p).mpr hr
        rw [contents?, if_pos hsame] at h
        rw [put, if_pos hsame, Option.some.inj h]
      · have hdiffer : ¬ leadToSame r p = true := by simpa [leadToSame] using hr
        rw [contents?, if_neg hdiffer] at h
        rw [put, if_neg hdiffer, ih h]

/-- Of two texts written to a place that holds a file only the second stays. -/
theorem put_put {files : List (Path × String)} {p q : Path} {a : String}
    (h : p.components = q.components) (hp : contents? p files = some a) (old new : String) :
    put q new (put p old files) = put q new files := by
  induction files with
  | nil => cases hp
  | cons file files ih =>
      rcases file with ⟨r, before⟩
      by_cases hr : r.components = q.components
      · simp [put, leadToSame, h, hr]
      · rw [contents?, if_neg (by simpa [leadToSame, h] using hr)] at hp
        simp [put, leadToSame, h, hr, ih hp]

/-- A text for a place that holds a file may as well be written after one for another place. -/
theorem put_comm {files : List (Path × String)} {p q : Path} {a : String}
    (h : p.components ≠ q.components) (hp : contents? p files = some a) (new other : String) :
    put q other (put p new files) = put p new (put q other files) := by
  induction files with
  | nil => cases hp
  | cons file files ih =>
      rcases file with ⟨r, old⟩
      by_cases hr : r.components = p.components
      · have hrq : ¬ r.components = q.components := fun e => h (hr.symm.trans e)
        simp [put, leadToSame, hr, h]
      · rw [contents?, if_neg (by simpa [leadToSame] using hr)] at hp
        by_cases hrq : r.components = q.components
        · have hqp : ¬ q.components = p.components := fun e => h e.symm
          simp [put, leadToSame, hrq, hqp]
        · simp [put, leadToSame, hr, hrq, ih hp]

/-! ## Many writes -/

/-- Puts texts into files, one after the other. -/
def writeAll (writes : List (Path × String)) (store : Memory) : Memory :=
  writes.foldl (fun store file => store.write file.1 file.2) store

@[simp] theorem writeAll_nil (store : Memory) : writeAll [] store = store := rfl

@[simp] theorem writeAll_cons (file : Path × String) (writes : List (Path × String))
    (store : Memory) :
    writeAll (file :: writes) store = writeAll writes (store.write file.1 file.2) := rfl

/-- Files are written one after the other. -/
theorem writeAll_append (a b : List (Path × String)) (store : Memory) :
    writeAll (a ++ b) store = writeAll b (writeAll a store) := List.foldl_append

/-- Writing files makes no directories. -/
@[simp] theorem directories_writeAll (writes : List (Path × String)) (store : Memory) :
    (writeAll writes store).directories = store.directories := by
  induction writes generalizing store with
  | nil => rfl
  | cons file writes ih => exact ih (store.write file.1 file.2)

/-- Directories have no part in what is written. -/
theorem files_writeAll_congr {a b : Memory} (h : a.files = b.files)
    (writes : List (Path × String)) : (writeAll writes a).files = (writeAll writes b).files := by
  induction writes generalizing a b with
  | nil => exact h
  | cons file writes ih => exact ih (congrArg (put file.1 file.2) h)

/-- A store holds each file once when several have been written. -/
theorem IsMap.writeAll (hmap : store.IsMap) (writes : List (Path × String)) :
    (writeAll writes store).IsMap := by
  induction writes generalizing store with
  | nil => exact hmap
  | cons file writes ih => exact ih (hmap.write file.1 file.2)

/-- A place that nothing is written to shows what it showed. -/
theorem text?_writeAll_of_ne {writes : List (Path × String)} {q : Path}
    (h : ∀ file ∈ writes, file.1.components ≠ q.components) :
    (writeAll writes store).text? q = store.text? q := by
  induction writes generalizing store with
  | nil => rfl
  | cons file writes ih =>
      rw [writeAll_cons, ih fun other hother => h other (List.mem_cons_of_mem file hother),
        text?_write, if_neg (h file List.mem_cons_self)]

/-- If all that is written to a place is the same text, the place shows it. -/
theorem text?_writeAll_of_mem {writes : List (Path × String)} {q : Path} {text : String}
    (hmem : ∃ file ∈ writes, file.1.components = q.components)
    (h : ∀ file ∈ writes, file.1.components = q.components → file.2 = text) :
    (writeAll writes store).text? q = some text := by
  induction writes generalizing store with
  | nil =>
      rcases hmem with ⟨_, hmem, _⟩
      exact absurd hmem List.not_mem_nil
  | cons file writes ih =>
      have hrest : ∀ other ∈ writes, other.1.components = q.components → other.2 = text :=
        fun other hother => h other (List.mem_cons_of_mem file hother)
      rw [writeAll_cons]
      -- the last of the texts written there counts, which may be this one or a later one
      by_cases hlater : ∃ other ∈ writes, other.1.components = q.components
      · exact ih hlater hrest
      · have hnone : ∀ other ∈ writes, other.1.components ≠ q.components :=
          fun other hother e => hlater ⟨other, hother, e⟩
        rw [text?_writeAll_of_ne hnone, text?_write]
        rcases hmem with ⟨first, hfirst, hq⟩
        rcases List.mem_cons.mp hfirst with rfl | hfirst
        · rw [if_pos hq, h first List.mem_cons_self hq]
        · exact absurd hq (hnone first hfirst)

/-- A place that holds a file goes on holding one. -/
theorem isSome_text?_writeAll (writes : List (Path × String)) {q : Path}
    (h : (store.text? q).isSome) : ((writeAll writes store).text? q).isSome := by
  induction writes generalizing store with
  | nil => exact h
  | cons file writes ih =>
      rw [writeAll_cons]
      apply ih
      rw [text?_write]
      split
      · rfl
      · exact h

/-- Writing files leaves those at other paths. -/
theorem mem_files_writeAll_of_ne {writes : List (Path × String)} {q : Path} {text : String}
    (h : ∀ file ∈ writes, file.1.components ≠ q.components) :
    (q, text) ∈ (writeAll writes store).files ↔ (q, text) ∈ store.files := by
  induction writes generalizing store with
  | nil => exact Iff.rfl
  | cons file writes ih =>
      rw [writeAll_cons, ih fun other hother => h other (List.mem_cons_of_mem file hother)]
      exact mem_put_of_ne fun e => h file List.mem_cons_self e.symm

/-- A text that is written over later may as well not be written, if there is a file before it. -/
theorem writeAll_write_of_mem {writes : List (Path × String)} {p : Path}
    (hmem : ∃ file ∈ writes, file.1.components = p.components) (hp : (store.text? p).isSome)
    (text : String) : writeAll writes (store.write p text) = writeAll writes store := by
  induction writes generalizing store with
  | nil =>
      rcases hmem with ⟨_, hmem, _⟩
      exact absurd hmem List.not_mem_nil
  | cons file writes ih =>
      rcases Option.isSome_iff_exists.mp hp with ⟨a, ha⟩
      rw [writeAll_cons, writeAll_cons]
      -- the next text goes over this one, or elsewhere, and then the two may change places
      by_cases hfile : file.1.components = p.components
      · have hover : (store.write p text).write file.1 file.2 = store.write file.1 file.2 :=
          congrArg (Memory.mk · store.directories) (put_put hfile.symm ha text file.2)
        rw [hover]
      · have hcomm : (store.write p text).write file.1 file.2 =
            (store.write file.1 file.2).write p text :=
          congrArg (Memory.mk · store.directories)
            (put_comm (fun e => hfile e.symm) ha text file.2)
        have hrest : ∃ other ∈ writes, other.1.components = p.components := by
          rcases hmem with ⟨other, hother, hsame⟩
          rcases List.mem_cons.mp hother with rfl | hother
          · exact absurd hsame hfile
          · exact ⟨other, hother, hsame⟩
        have hstill : ((store.write file.1 file.2).text? p).isSome := by
          rw [text?_write, if_neg hfile]
          exact hp
        rw [hcomm, ih hrest hstill]

/-- Writing the same texts once more changes nothing. -/
theorem writeAll_writeAll (writes : List (Path × String)) (store : Memory) :
    writeAll writes (writeAll writes store) = writeAll writes store := by
  induction writes generalizing store with
  | nil => rfl
  | cons file writes ih =>
      have hthere : ((store.write file.1 file.2).text? file.1).isSome := by
        simp [text?_write]
      rw [writeAll_cons, writeAll_cons]
      by_cases hlater : ∃ other ∈ writes, other.1.components = file.1.components
      · rw [writeAll_write_of_mem hlater (isSome_text?_writeAll writes hthere), ih]
      · have hstays : (writeAll writes (store.write file.1 file.2)).text? file.1 = some file.2 := by
          rw [text?_writeAll_of_ne fun other hother e => hlater ⟨other, hother, e⟩, text?_write,
            if_pos rfl]
        have hself : (writeAll writes (store.write file.1 file.2)).write file.1 file.2 =
            writeAll writes (store.write file.1 file.2) :=
          congrArg (Memory.mk · _) (put_eq_self hstays)
        rw [hself, ih]

/-! ## Files in a directory -/

/-- A path stands in a directory if its parent is this directory. -/
theorem standsIn_iff {directory p : Path} :
    standsIn directory p = true ↔
      ∃ q, p.parent? = some q ∧ q.components = directory.components := by
  unfold standsIn
  cases hp : p.parent? with
  | none => simp
  | some q => simp

/-- Does a path stand in a directory?  Only its components matter. -/
theorem standsIn_congr {directory p q : Path} (h : p.components = q.components) :
    standsIn directory p = standsIn directory q := by
  have hparent : p.parent?.map Path.components = q.parent?.map Path.components := by
    rw [Path.parent?_map_components, Path.parent?_map_components, h]
  unfold standsIn
  cases hp : p.parent? <;> cases hq : q.parent? <;> simp_all [leadToSame]

/-- A file in a directory has the components of the directory and its name. -/
theorem components_of_standsIn {directory p : Path} {name : String}
    (h : standsIn directory p = true) (hname : p.fileName? = some name) :
    p.components = directory.components ++ [.name name] := by
  rcases standsIn_iff.mp h with ⟨q, hq, hdirectory⟩
  have hparent := Path.parent?_map_components p
  rw [hq, Option.map_some] at hparent
  split at hparent
  · cases hparent
  · rw [Path.components_eq_of_fileName? hname, ← Option.some.inj hparent, hdirectory]

/-- What has one name more than a directory stands in it. -/
theorem standsIn_of_components {directory p : Path} {name : String}
    (h : p.components = directory.components ++ [.name name]) :
    standsIn directory p = true := by
  have hparent := Path.parent?_map_components p
  rw [h, List.dropLast_concat, if_neg] at hparent
  · cases hp : p.parent? with
    | none =>
        rw [hp] at hparent
        cases hparent
    | some q =>
        rw [hp] at hparent
        exact standsIn_iff.mpr ⟨q, hp, Option.some.inj hparent⟩
  · rintro (hnone | hroot)
    · exact absurd hnone (List.append_ne_nil_of_right_ne_nil _ (List.cons_ne_nil _ _))
    · rcases List.append_eq_singleton_iff.mp hroot with ⟨_, hroot⟩ | ⟨_, hroot⟩
      · cases hroot
      · cases hroot

/-- It stands in no other directory. -/
theorem standsIn_eq_false_of_components {directory other p : Path} {name : String}
    (h : p.components = directory.components ++ [.name name])
    (hne : other.components ≠ directory.components) : standsIn other p = false := by
  rcases standsIn_iff.mp (standsIn_of_components h) with ⟨q, hq, hdirectory⟩
  rw [Bool.eq_false_iff]
  intro hother
  rcases standsIn_iff.mp hother with ⟨q', hq', hsame⟩
  rw [Option.some.inj (hq'.symm.trans hq)] at hsame
  exact hne (hsame.symm.trans hdirectory)

/-! ## Directories -/

/-- Was this directory made? -/
def HasDirectory (store : Memory) (p : Path) : Prop :=
  ∃ q ∈ store.directories, q.components = p.components

/-- A store has a directory if one of its paths leads there. -/
theorem any_leadToSame_iff (p : Path) :
    store.directories.any (leadToSame p) = true ↔ store.HasDirectory p := by
  rw [List.any_eq_true]
  simp only [leadToSame_iff, HasDirectory]
  exact exists_congr fun q => and_congr_right fun _ => eq_comm

/-- There is no listing of a directory that was not made and holds no file. -/
theorem list_eq_error_iff {directory : Path} {e : BundleError} :
    store.list directory = .error e ↔ (∀ file ∈ store.files, standsIn directory file.1 = false) ∧
      ¬ store.HasDirectory directory ∧ e = .notFound directory.text := by
  have hfound : ((store.files.map (·.1)).filter (standsIn directory)).isEmpty = true ↔
      ∀ file ∈ store.files, standsIn directory file.1 = false := by
    rw [List.isEmpty_iff, List.filter_eq_nil_iff]
    simp only [List.mem_map, Bool.not_eq_true]
    constructor
    · intro h file hfile
      exact h file.1 ⟨file, hfile, rfl⟩
    · rintro h p ⟨file, hfile, rfl⟩
      exact h file hfile
  have hnone : (((store.files.map (·.1)).filter (standsIn directory)).isEmpty &&
      !store.directories.any (leadToSame directory)) = true ↔
      (∀ file ∈ store.files, standsIn directory file.1 = false) ∧
        ¬ store.HasDirectory directory := by
    rw [Bool.and_eq_true, hfound, Bool.not_eq_true', ← Bool.not_eq_true, any_leadToSame_iff]
  unfold list
  constructor
  · intro h
    simp only at h
    split at h
    · rename_i hcondition
      have hthere := hnone.mp hcondition
      exact ⟨hthere.1, hthere.2, (Except.error.inj h).symm⟩
    · cases h
  · rintro ⟨hfiles, hdirectory, rfl⟩
    exact if_pos (hnone.mpr ⟨hfiles, hdirectory⟩)

/-- A listing is made up of the files that stand in the directory. -/
theorem list_eq_ok {directory : Path} {files : List Path} (h : store.list directory = .ok files) :
    files = (store.files.map (·.1)).filter (standsIn directory) := by
  unfold list at h
  simp only at h
  split at h
  · cases h
  · exact (Except.ok.inj h).symm

/-- A listing has the files of the store that stand in the directory. -/
theorem mem_listing {directory p : Path} :
    p ∈ (store.files.map (·.1)).filter (standsIn directory) ↔
      (∃ text, (p, text) ∈ store.files) ∧ standsIn directory p = true := by
  rw [List.mem_filter, List.mem_map]
  refine and_congr_left fun _ => ⟨?_, ?_⟩
  · rintro ⟨⟨q, text⟩, hfile, rfl⟩
    exact ⟨text, hfile⟩
  · rintro ⟨text, hfile⟩
    exact ⟨(p, text), hfile, rfl⟩

/-- In a map no two files of one directory share a name. -/
theorem IsMap.namesDiffer (hmap : store.IsMap) (directory : Path) :
    ((store.files.map (·.1)).filter (standsIn directory)).Pairwise Path.NamesDiffer := by
  have hpaths : (store.files.map (·.1)).Pairwise fun p q => p.components ≠ q.components :=
    List.pairwise_map.mpr hmap
  rw [List.pairwise_filter]
  refine hpaths.imp ?_
  intro p q hne hp hq name hnamep hnameq
  apply hne
  rw [components_of_standsIn hp hnamep, components_of_standsIn hq hnameq]

/-- A directory that is added is there, and no other is new. -/
theorem mem_addDirectory {directories : List Path} {p q : Path} :
    (∃ r ∈ addDirectory directories p, r.components = q.components) ↔
      (∃ r ∈ directories, r.components = q.components) ∨ p.components = q.components := by
  unfold addDirectory
  split
  · rename_i hthere
    constructor
    · exact Or.inl
    · rintro (h | h)
      · exact h
      · rcases List.any_eq_true.mp hthere with ⟨r, hr, hsame⟩
        exact ⟨r, hr, ((leadToSame_iff p r).mp hsame).symm.trans h⟩
  · constructor
    · rintro ⟨r, hr, hsame⟩
      rcases List.mem_append.mp hr with hr | hr
      · exact Or.inl ⟨r, hr, hsame⟩
      · rw [List.mem_singleton] at hr
        exact Or.inr (hr ▸ hsame)
    · rintro (⟨r, hr, hsame⟩ | h)
      · exact ⟨r, List.mem_append_left _ hr, hsame⟩
      · exact ⟨p, List.mem_append_right _ (List.mem_singleton_self p), h⟩

/-- Directories that are added are there, and no others are new. -/
theorem mem_foldl_addDirectory {made directories : List Path} {q : Path} :
    (∃ r ∈ made.foldl addDirectory directories, r.components = q.components) ↔
      (∃ r ∈ directories, r.components = q.components) ∨
        ∃ r ∈ made, r.components = q.components := by
  induction made generalizing directories with
  | nil => simp
  | cons p made ih =>
      rw [List.foldl_cons, ih, mem_addDirectory, or_assoc]
      simp only [List.mem_cons, exists_eq_or_imp]

/-- No other spelling of a directory is made up. -/
theorem of_mem_foldl_addDirectory {made directories : List Path} {q : Path}
    (h : q ∈ made.foldl addDirectory directories) : q ∈ directories ∨ q ∈ made := by
  induction made generalizing directories with
  | nil => exact Or.inl h
  | cons p made ih =>
      rcases ih h with h | h
      · unfold addDirectory at h
        split at h
        · exact Or.inl h
        · rcases List.mem_append.mp h with h | h
          · exact Or.inl h
          · exact Or.inr (List.mem_cons.mpr (Or.inl (List.mem_singleton.mp h)))
      · exact Or.inr (List.mem_cons_of_mem p h)

/-- Making a directory makes it and all above it that have a name, and no other. -/
theorem hasDirectory_makeDirectories (store : Memory) (p q : Path) :
    (store.makeDirectories p).HasDirectory q ↔
      store.HasDirectory q ∨
        ∃ a ∈ p.ancestors, a.text ≠ "" ∧ a.components = q.components := by
  unfold HasDirectory makeDirectories
  rw [mem_foldl_addDirectory]
  simp only [List.mem_filter, Bool.not_eq_true', String.isEmpty_eq_false_iff, and_assoc, ne_eq]

/-- To add directories that are there changes nothing. -/
theorem foldl_addDirectory_eq_self {made directories : List Path}
    (h : ∀ p ∈ made, ∃ r ∈ directories, r.components = p.components) :
    made.foldl addDirectory directories = directories := by
  induction made with
  | nil => rfl
  | cons p made ih =>
      rcases h p List.mem_cons_self with ⟨r, hr, hsame⟩
      have hthere : directories.any (leadToSame p) = true :=
        List.any_eq_true.mpr ⟨r, hr, (leadToSame_iff p r).mpr hsame.symm⟩
      rw [List.foldl_cons, addDirectory, if_pos hthere]
      exact ih fun q hq => h q (List.mem_cons_of_mem p hq)

/-- Making directories that are there changes nothing. -/
theorem makeDirectories_eq_self {p : Path}
    (h : ∀ a ∈ p.ancestors, a.text ≠ "" → store.HasDirectory a) :
    store.makeDirectories p = store := by
  have hmade : (p.ancestors.filter fun q => !q.text.isEmpty).foldl addDirectory
      store.directories = store.directories := by
    apply foldl_addDirectory_eq_self
    intro a ha
    rcases List.mem_filter.mp ha with ⟨ha, hne⟩
    exact h a ha (by simpa using hne)
  rw [makeDirectories, hmade]

/-- Making directories leaves all files. -/
@[simp] theorem text?_makeDirectories (store : Memory) (p q : Path) :
    (store.makeDirectories p).text? q = store.text? q := rfl

end Store.Memory

end OperatorBundle
