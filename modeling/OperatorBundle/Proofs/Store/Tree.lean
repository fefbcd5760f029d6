import Mathlib.Data.List.Induction
import OperatorBundle.Proofs.Lookup
import OperatorBundle.Proofs.Path.Plain
import OperatorBundle.Proofs.Store.Disk

/-!
# Plain paths in a tree

A tree of a system has one entry at each place, and everything in it stands in a directory
(`Disk.IsTree`).  There a plain path leads to the place that its names spell (`Disk.below`), and the
system finds it missing only if nothing stands there.
-/

namespace OperatorBundle.Store.Disk

open OperatorBundle.Path (IsName IsPlain ofNames)

/-- A tree as systems have it. -/
structure IsTree (disk : Disk) : Prop where
  apart : disk.entries.Pairwise fun a b => a.1 ≠ b.1
  named : ∀ name directory entry, (name :: directory, entry) ∈ disk.entries → IsName name
  /-- Whatever there is stands in a directory. -/
  inside : ∀ name directory entry, disk.entry? (name :: directory) = some entry →
    disk.entry? directory = some .directory
  /-- Paths are taken from a directory. -/
  base : disk.entry? disk.base = some .directory

/-- The place that the names of a path spell. -/
def below (disk : Disk) (p : Path) : Place := p.names.reverse ++ disk.base

variable {disk later : Disk} {p : Path} {place directory : Place} {name : String}
  {names : List String} {entry : Entry} {cause : Cause}

/-- A path has a name, and so it spells more than where it is taken from. -/
theorem below_ne_nil (disk : Disk) (p : Path) : disk.below p ≠ [] := fun h =>
  p.names_ne_nil (List.reverse_eq_nil_iff.mp (List.append_eq_nil_iff.mp h).1)

/-! ## Entries -/

/-- In a tree every entry is found at its place. -/
theorem IsTree.mem_entries_iff (h : disk.IsTree) :
    (name :: directory, entry) ∈ disk.entries ↔ disk.entry? (name :: directory) = some entry :=
  ⟨fun hmem => lookup_of_mem h.apart hmem, fun hentry => mem_of_lookup hentry⟩

/-- Entries are those of a tree if there is one at each place, and a directory around it. -/
theorem isTree_of_entries (hapart : disk.entries.Pairwise fun a b => a.1 ≠ b.1)
    (hentries : ∀ e ∈ disk.entries,
      (∀ name ∈ e.1.head?, IsName name) ∧ disk.entry? e.1.tail = some .directory)
    (hbase : disk.entry? disk.base = some .directory) : disk.IsTree where
  apart := hapart
  named name _ _ hmem := (hentries _ hmem).1 name rfl
  inside _ _ _ hentry := (hentries _ (mem_of_lookup hentry)).2
  base := hbase

/-- Below a place where nothing stands nothing stands. -/
theorem IsTree.entry?_append_eq_none (h : disk.IsTree) (hplace : disk.entry? place = none)
    (names : List String) : disk.entry? (names ++ place) = none := by
  -- upwards from the place: what stood below a missing one would stand in it
  induction names with
  | nil => exact hplace
  | cons name names ih =>
      cases hentry : disk.entry? (name :: (names ++ place)) with
      | none => exact hentry
      | some entry =>
          have hinside := h.inside name (names ++ place) entry hentry
          rw [ih] at hinside
          cases hinside

/-- What is put somewhere is there, and no other entry is new. -/
theorem mem_put {entries : List (Place × Entry)} {e : Place × Entry}
    (h : e ∈ put place entry entries) : e = (place, entry) ∨ e ∈ entries := by
  induction entries with
  | nil => exact Or.inl (List.mem_singleton.mp h)
  | cons first entries ih =>
      rcases first with ⟨there, old⟩
      rw [put] at h
      split at h
      · rcases List.mem_cons.mp h with h | h
        · exact Or.inl h
        · exact Or.inr (List.mem_cons_of_mem _ h)
      · rcases List.mem_cons.mp h with h | h
        · exact Or.inr (h ▸ List.mem_cons_self)
        · rcases ih h with h | h
          · exact Or.inl h
          · exact Or.inr (List.mem_cons_of_mem _ h)

/-- Places differ pairwise when an entry has been put among others. -/
theorem pairwise_put_places {entries : List (Place × Entry)}
    (h : entries.Pairwise fun a b => a.1 ≠ b.1) (place : Place) (entry : Entry) :
    (put place entry entries).Pairwise fun a b => a.1 ≠ b.1 := by
  induction entries with
  | nil => exact List.pairwise_singleton _ _
  | cons first entries ih =>
      rcases first with ⟨there, old⟩
      rw [List.pairwise_cons] at h
      rw [put]
      split
      · rename_i hplace
        rw [List.pairwise_cons]
        exact ⟨fun e he => (eq_of_beq hplace) ▸ h.1 e he, h.2⟩
      · rename_i hplace
        rw [List.pairwise_cons]
        refine ⟨fun e he => ?_, ih h.2⟩
        rcases mem_put he with rfl | he
        · exact fun hsame => hplace (beq_iff_eq.mpr hsame)
        · exact h.1 e he

/-- A tree stays one when something is put in a directory that is not in the place of another
directory, or is a directory itself. -/
theorem IsTree.set (h : disk.IsTree) (hname : IsName name)
    (hdirectory : disk.entry? directory = some .directory)
    (hkept : entry = .directory ∨ disk.entry? (name :: directory) ≠ some .directory) :
    (disk.set (name :: directory) entry).IsTree := by
  have hne := List.cons_ne_nil name directory
  -- directories that were there are still there
  have hstays : ∀ place, disk.entry? place = some .directory →
      Disk.entry? (disk.set (name :: directory) entry) place = some .directory := by
    intro place hplace
    rw [entry?_set disk hne]
    split
    · rename_i hsame
      subst hsame
      rcases hkept with rfl | hkept
      · rfl
      · exact absurd hplace hkept
    · exact hplace
  constructor
  · exact pairwise_put_places h.apart _ _
  · intro name' directory' entry' hmem
    rcases mem_put hmem with hsame | hmem
    · cases hsame
      exact hname
    · exact h.named _ _ _ hmem
  · intro name' directory' entry' hentry
    apply hstays
    rw [entry?_set disk hne] at hentry
    split at hentry
    · rename_i hsame
      cases hsame
      exact hdirectory
    · exact h.inside _ _ _ hentry
  · exact hstays _ h.base

/-! ## Following names -/

/-- A child that is missing is no failure. -/
theorem child_ne_missing (disk : Disk) (directory : Place) (name : String) :
    disk.child directory name ≠ .error .missing := by
  intro h
  unfold child at h
  split at h
  · cases h
  · cases h

/-- A directory is entered under a name if it is there and a directory. -/
theorem enter_of_isName (disk : Disk) (directory : Place) (h : IsName name) :
    disk.enter directory name =
      match disk.child directory name with
      | .ok (some .directory) => .ok (name :: directory)
      | .ok (some (.file _)) => .error .notADirectory
      | .ok none => .error .missing
      | .error cause => .error cause := by
  rw [enter, beq_eq_false_iff_ne.mpr h.ne_here, beq_eq_false_iff_ne.mpr h.ne_up]
  simp only [Bool.false_eq_true, if_false]
  rcases disk.child directory name with cause | (_ | (_ | _)) <;> rfl

/-- Directories are entered one after the other. -/
theorem enterAll_cons (disk : Disk) (directory : Place) (name : String) (names : List String) :
    disk.enterAll directory (name :: names) =
      (disk.enter directory name >>= fun next => disk.enterAll next names) := rfl

/-- Where names lead that can be followed, and that a directory stands there. -/
theorem enterAll_eq_ok {reached : Place} (hnames : ∀ name ∈ names, IsName name)
    (hdirectory : disk.entry? directory = some .directory)
    (h : disk.enterAll directory names = .ok reached) :
    reached = names.reverse ++ directory ∧ disk.entry? reached = some .directory := by
  induction names generalizing directory with
  | nil =>
      cases h
      exact ⟨rfl, hdirectory⟩
  | cons name names ih =>
      rw [enterAll_cons, enter_of_isName disk directory (hnames name List.mem_cons_self)] at h
      rcases bind_eq_ok_iff.mp h with ⟨next, hnext, h⟩
      -- only a directory can be entered; the three other answers are failures
      split at hnext
      · rename_i hchild
        cases hnext
        rcases ih (fun other hother => hnames other (List.mem_cons_of_mem name hother))
          (child_eq_ok_iff.mp hchild).2 h with ⟨rfl, hreached⟩
        exact ⟨by rw [List.reverse_cons, List.append_assoc]; rfl, hreached⟩
      · cases hnext
      · cases hnext
      · cases hnext

/-- If a directory on the way is missing, nothing stands where the names lead. -/
theorem IsTree.enterAll_eq_missing (htree : disk.IsTree) (hnames : ∀ name ∈ names, IsName name)
    (h : disk.enterAll directory names = .error .missing) :
    disk.entry? (names.reverse ++ directory) = none := by
  induction names generalizing directory with
  | nil => cases h
  | cons name names ih =>
      rw [List.reverse_cons, List.append_assoc]
      rw [enterAll_cons, enter_of_isName disk directory (hnames name List.mem_cons_self)] at h
      split at h
      -- either the first directory is there and the next is missing, or it is missing itself
      · exact ih (fun other hother => hnames other (List.mem_cons_of_mem name hother)) h
      · cases h
      · rename_i hchild
        exact htree.entry?_append_eq_none (child_eq_ok_iff.mp hchild).2 names.reverse
      · rename_i cause hchild
        cases h
        exact absurd hchild (child_ne_missing disk directory name)

/-! ## Following plain paths -/

/-- The steps of a plain path are its names. -/
theorem steps_eq_names (h : p.IsPlain) : steps p = p.names := by
  have hfull : ∀ part ∈ Text.split '/' p.text.toList, (!part.isEmpty) = true := by
    intro part hpart
    cases part with
    | nil => exact absurd hpart h.nil_not_mem_split
    | cons c r => rfl
  rw [steps, List.filter_eq_self.mpr hfull]
  rfl

/-- The last name of a path is apart from those in front. -/
theorem lastName_concat (before : List String) (h : IsName name) :
    lastName (before ++ [name]) = (before, some name) := by
  simp [lastName, h.ne_here, h.ne_up]

/-- A plain path is followed to its last name, unless the system refuses its text. -/
theorem locate_cases (disk : Disk) (h : p.IsPlain) :
    (∃ before name, p.names = before ++ [name] ∧
      disk.locate p = (disk.enterAll disk.base before).map (·, some name)) ∨
    ∃ cause, cause ≠ .missing ∧ disk.locate p = .error cause := by
  have horigin : disk.origin p = disk.base := by
    rw [origin, h.isAbsolute_eq_false]
    rfl
  -- the last name is not entered, so the names before it are what is followed
  rcases List.eq_nil_or_concat p.names with hnil | ⟨before, name, hnames⟩
  · exact absurd hnil p.names_ne_nil
  · rw [List.concat_eq_append] at hnames
    have hname : IsName name := Path.isPlain_iff.mp h name (by rw [hnames]; simp)
    rw [locate_eq, steps_eq_names h, hnames, lastName_concat before hname, horigin]
    split
    · exact Or.inr ⟨.endInside, by decide, rfl⟩
    · split
      · exact Or.inr ⟨.nameTooLong, by decide, rfl⟩
      · exact Or.inl ⟨before, name, rfl, rfl⟩

/-- A plain path lies below the base, its last name first. -/
theorem below_eq_of_names {before : List String} (hnames : p.names = before ++ [name]) :
    disk.below p = name :: (before.reverse ++ disk.base) := by
  rw [below, hnames, List.reverse_append]
  rfl

/-- The parts of a plain path are names. -/
theorem isName_of_names (h : p.IsPlain) {before : List String}
    (hnames : p.names = before ++ [name]) :
    (∀ other ∈ before, IsName other) ∧ IsName name := by
  rw [Path.isPlain_iff, hnames] at h
  exact ⟨fun other hother => h other (List.mem_append_left _ hother),
    h name (List.mem_append_right _ (List.mem_singleton_self _))⟩

/-- Where a plain path is located. -/
theorem IsTree.locate_eq_ok (htree : disk.IsTree) (h : p.IsPlain) {found : Option String}
    (hlocate : disk.locate p = .ok (directory, found)) :
    ∃ name, found = some name ∧ IsName name ∧ disk.below p = name :: directory ∧
      disk.entry? directory = some .directory := by
  rcases disk.locate_cases h with ⟨before, name, hnames, heq⟩ | ⟨cause, _, heq⟩
  · rcases isName_of_names h hnames with ⟨hbefore, hname⟩
    rw [heq] at hlocate
    cases henter : disk.enterAll disk.base before with
    | error cause =>
        rw [henter] at hlocate
        cases hlocate
    | ok reached =>
        rw [henter] at hlocate
        cases hlocate
        rcases enterAll_eq_ok hbefore htree.base henter with ⟨rfl, hreached⟩
        exact ⟨name, rfl, hname, below_eq_of_names hnames, hreached⟩
  · rw [heq] at hlocate
    cases hlocate

/-- A plain path is missing on the way only if the directory around its last name is. -/
theorem IsTree.locate_eq_missing (htree : disk.IsTree) (h : p.IsPlain)
    (hlocate : disk.locate p = .error .missing) : disk.entry? (disk.below p).tail = none := by
  rcases disk.locate_cases h with ⟨before, name, hnames, heq⟩ | ⟨cause, hcause, heq⟩
  · rw [heq] at hlocate
    rw [below_eq_of_names hnames, List.tail_cons]
    cases henter : disk.enterAll disk.base before with
    | error cause =>
        rw [henter] at hlocate
        cases hlocate
        exact htree.enterAll_eq_missing (isName_of_names h hnames).1 henter
    | ok reached =>
        rw [henter] at hlocate
        cases hlocate
  · rw [heq] at hlocate
    exact absurd (Except.error.inj hlocate) hcause

/-- A plain path leads to what stands at its place, if it leads anywhere. -/
theorem IsTree.find_cases (htree : disk.IsTree) (h : p.IsPlain) :
    (∃ entry, disk.find p = .ok (disk.below p, entry) ∧
      disk.entry? (disk.below p) = some entry) ∨
    ∃ cause, disk.find p = .error cause ∧
      (cause = .missing → disk.entry? (disk.below p) = none) := by
  rcases hlocate : disk.locate p with cause | ⟨directory, found⟩
  · refine Or.inr ⟨cause, find_of_locate_error hlocate, fun hcause => ?_⟩
    -- the directory around is missing, and so is what would stand in it
    have hnone := htree.locate_eq_missing h (hcause ▸ hlocate)
    rcases List.exists_cons_of_ne_nil (disk.below_ne_nil p) with ⟨name, directory, hbelow⟩
    rw [hbelow] at hnone ⊢
    exact htree.entry?_append_eq_none hnone [name]
  · rcases htree.locate_eq_ok h hlocate with ⟨name, rfl, _, hbelow, _⟩
    have hends : asksForDirectory p = false := beq_eq_false_iff_ne.mpr h.getLast?_ne
    rw [hbelow]
    rcases Nat.lt_or_ge nameLimit name.utf8ByteSize with hlong | hshort
    · exact Or.inr ⟨_, find_of_long hlocate hlong, nofun⟩
    · rw [find_of_locate hlocate hshort, hends]
      rcases disk.entry? (name :: directory) with _ | (bytes | _)
      · exact Or.inr ⟨_, rfl, fun _ => rfl⟩
      · exact Or.inl ⟨_, rfl, rfl⟩
      · exact Or.inl ⟨_, rfl, rfl⟩

/-- In a tree a plain path leads to its place below the base. -/
theorem IsTree.find_eq_ok (htree : disk.IsTree) (h : p.IsPlain)
    (hfind : disk.find p = .ok (place, entry)) :
    place = disk.below p ∧ disk.entry? place = some entry := by
  rcases htree.find_cases h with ⟨_, heq, hentry⟩ | ⟨_, heq, _⟩
  · rw [heq] at hfind
    cases hfind
    exact ⟨rfl, hentry⟩
  · rw [heq] at hfind
    cases hfind

/-- What the system does not find is not there. -/
theorem IsTree.find_eq_missing (htree : disk.IsTree) (h : p.IsPlain)
    (hfind : disk.find p = .error .missing) : disk.entry? (disk.below p) = none := by
  rcases htree.find_cases h with ⟨_, heq, _⟩ | ⟨cause, heq, hmissing⟩
  · rw [heq] at hfind
    cases hfind
  · rw [heq] at hfind
    exact hmissing (Except.error.inj hfind)

/-- Where a file is written at a plain path. -/
theorem IsTree.writable_eq_ok (htree : disk.IsTree) (h : p.IsPlain)
    (hwritable : disk.writable p = .ok place) :
    place = disk.below p ∧ disk.entry? place ≠ some .directory ∧
      ∃ name directory, place = name :: directory ∧ IsName name ∧
        disk.entry? directory = some .directory := by
  rcases writable_eq_ok_iff.mp hwritable with ⟨hplace, hfree⟩
  rcases place?_eq_some_iff.mp hplace with ⟨directory, name, hlocate, _, _, rfl⟩
  rcases htree.locate_eq_ok h hlocate with ⟨_, hsome, hname, hbelow, hdirectory⟩
  cases hsome
  exact ⟨hbelow.symm, hfree, name, directory, rfl, hname, hdirectory⟩

/-- A file can be written wherever there is a directory for it, as far as directories go. -/
theorem IsTree.writable_ne_missing (htree : disk.IsTree) (h : p.IsPlain)
    (hdirectory : disk.entry? (disk.below p).tail = some .directory) :
    disk.writable p ≠ .error .missing := by
  intro hmissing
  rcases hlocate : disk.locate p with cause | ⟨directory, found⟩
  -- only the way to the directory can be missing, and it is there
  · rw [writable, hlocate] at hmissing
    cases hmissing
    rw [htree.locate_eq_missing h hlocate] at hdirectory
    cases hdirectory
  · rcases htree.locate_eq_ok h hlocate with ⟨name, rfl, _, _, _⟩
    rw [writable, hlocate, ok_bind] at hmissing
    simp only at hmissing
    split at hmissing
    · cases hmissing
    · rcases bind_eq_error_iff.mp hmissing with hchild | ⟨found, _, hmissing⟩
      · exact absurd hchild (child_ne_missing disk directory name)
      · split at hmissing
        · cases hmissing
        · cases hmissing

/-! ## Reading and copying -/

/-- Bytes that are a text are those of the text. -/
theorem toUTF8_of_fromUTF8? {bytes : ByteArray} {text : String}
    (h : String.fromUTF8? bytes = some text) : text.toUTF8 = bytes := by
  unfold String.fromUTF8? at h
  split at h
  · rw [← Option.some.inj h]
    rfl
  · cases h

/-- What is read at a plain path is the text of the file there. -/
theorem IsTree.read_eq_ok (htree : disk.IsTree) (h : p.IsPlain) {text : String}
    (hread : disk.read p = .ok text) :
    disk.entry? (disk.below p) = some (.file text.toUTF8) := by
  rcases bind_eq_ok_iff.mp hread with ⟨⟨place, bytes | _⟩, hfind, hread⟩
  · rcases htree.find_eq_ok h hfind with ⟨rfl, hentry⟩
    simp only at hread
    split at hread
    · rename_i found hutf8
      cases hread
      rw [hentry, toUTF8_of_fromUTF8? hutf8]
    · cases hread
  · cases hread

/-- A file that is missing when it is read is not found. -/
theorem find_of_read_missing (hread : disk.read p = .error .missing) :
    disk.find p = .error .missing := by
  rcases bind_eq_error_iff.mp hread with hfind | ⟨⟨place, bytes | _⟩, _, hread⟩
  · exact hfind
  · simp only at hread
    split at hread
    · cases hread
    · cases hread
  · cases hread

/-- A file copied to another place keeps its bytes, and these are there too. -/
theorem IsTree.copy_eq_ok (htree : disk.IsTree) {source target : Path} (hsource : source.IsPlain)
    (htarget : target.IsPlain) (hne : disk.below source ≠ disk.below target)
    (hcopy : disk.copy source target = .ok later) :
    ∃ bytes place, disk.entry? (disk.below source) = some (.file bytes) ∧
      disk.writable target = .ok place ∧ later = disk.set place (.file bytes) := by
  rcases Disk.copy_eq_ok hcopy with ⟨origin, bytes, place, hfind, hwritable, rfl⟩
  rcases htree.find_eq_ok hsource hfind with ⟨rfl, hentry⟩
  rcases htree.writable_eq_ok htarget hwritable with ⟨hplace, _, name, directory, hcons, _, _⟩
  refine ⟨bytes, place, hentry, hwritable, ?_⟩
  -- the target is emptied before the source is read, which is another file
  have hkept : Disk.entry? (disk.set place (.file .empty)) (disk.below source) =
      some (.file bytes) := by
    rw [entry?_set disk (by rw [hcons]; exact List.cons_ne_nil name directory), if_neg, hentry]
    rw [hplace]
    exact hne
  rw [Disk.bytes, hkept]

/-- A copy misses nothing but its source, if there is a directory for it. -/
theorem IsTree.find_of_copy_missing (htree : disk.IsTree) {source target : Path}
    (htarget : target.IsPlain) (hdirectory : disk.entry? (disk.below target).tail = some .directory)
    (hcopy : disk.copy source target = .error .missing) :
    disk.find source = .error .missing := by
  rcases bind_eq_error_iff.mp hcopy with hfind | ⟨⟨place, bytes | _⟩, _, hcopy⟩
  · exact hfind
  · rcases bind_eq_error_iff.mp hcopy with hwritable | ⟨_, _, hcopy⟩
    · exact absurd hwritable (htree.writable_ne_missing htarget hdirectory)
    · cases hcopy
  · cases hcopy

/-! ## Making directories -/

/-- A path that is made of names lies below the base under these names. -/
theorem below_ofNames (disk : Disk) (hne : names ≠ []) (h : ∀ name ∈ names, IsName name) :
    disk.below (ofNames names) = names.reverse ++ disk.base := by
  rw [below, Path.names_ofNames hne h]

/-- A tree with directories more, at none but the given places. -/
structure AddsOnly (places : Place → Prop) (disk later : Disk) : Prop where
  tree : later.IsTree
  adds : AddsDirectories disk later
  only : ∀ place, later.entry? place = some .directory →
    disk.entry? place = some .directory ∨ places place

/-- After a directory was made or found there is one. -/
theorem IsTree.ensure_eq_ok (htree : disk.IsTree) (h : ∀ name ∈ names, IsName name)
    (hensure : disk.ensure (ofNames names) = .ok later) :
    AddsOnly (· = names.reverse ++ disk.base) disk later ∧
      later.entry? (names.reverse ++ disk.base) = some .directory := by
  have hadds := addsDirectories_of_ensure hensure
  rcases Disk.ensure_eq_ok hensure with hcreate | ⟨rfl, hdirectory⟩
  · rcases create_eq_ok hcreate with ⟨directory, name, hlocate, _, hnone, rfl⟩
    -- the empty path leads to a directory that is there, which is not made again
    have hne : names ≠ [] := by
      rintro rfl
      have hempty : disk.locate (ofNames []) = .ok (disk.base, none) := rfl
      rw [hempty] at hlocate
      cases hlocate
    rcases htree.locate_eq_ok (Path.isPlain_ofNames hne h) hlocate with
      ⟨_, hsome, hname, hbelow, hparent⟩
    cases hsome
    rw [below_ofNames disk hne h] at hbelow
    rw [hbelow]
    refine ⟨⟨htree.set hname hparent (Or.inl rfl), hadds, fun place hplace => ?_⟩, ?_⟩
    · rw [entry?_set disk (List.cons_ne_nil name directory)] at hplace
      split at hplace
      · rename_i hsame
        exact Or.inr hsame
      · exact Or.inl hplace
    · rw [entry?_set disk (List.cons_ne_nil name directory), if_pos rfl]
  · refine ⟨⟨htree, hadds, fun place hplace => Or.inl hplace⟩, ?_⟩
    cases names with
    | nil => exact htree.base
    | cons first rest =>
        have hplain := Path.isPlain_ofNames (List.cons_ne_nil first rest) h
        unfold isDirectory at hdirectory
        split at hdirectory
        · rename_i place hfind
          rcases htree.find_eq_ok hplain hfind with ⟨rfl, hentry⟩
          rwa [below_ofNames later (List.cons_ne_nil first rest) h] at hentry
        · cases hdirectory

/-- What is added in two steps is added at the places of either. -/
theorem AddsOnly.trans {first second : Place → Prop} {middle : Disk}
    (h : AddsOnly first disk middle) (h' : AddsOnly second middle later) :
    AddsOnly (fun place => first place ∨ second place) disk later where
  tree := h'.tree
  adds := h.adds.trans h'.adds
  only place hplace := by
    rcases h'.only place hplace with hplace | hsecond
    · rcases h.only place hplace with hplace | hfirst
      · exact Or.inl hplace
      · exact Or.inr (Or.inl hfirst)
    · exact Or.inr (Or.inr hsecond)

/-- What is added at some places is added at more of them. -/
theorem AddsOnly.mono {places more : Place → Prop} (h : AddsOnly places disk later)
    (hmore : ∀ place, places place → more place) : AddsOnly more disk later where
  tree := h.tree
  adds := h.adds
  only place hplace := (h.only place hplace).imp_right (hmore place)

/-- Making the directories of a path makes those at the beginnings of its names. -/
theorem IsTree.ensureAll_eq_ok (htree : disk.IsTree) (h : ∀ name ∈ names, IsName name)
    (hmade : ensureAll (ofNames names).ancestors disk = (.ok (), later)) :
    AddsOnly (fun place => ∃ front, front <+: names ∧ place = front.reverse ++ disk.base)
        disk later ∧
      later.entry? (names.reverse ++ disk.base) = some .directory := by
  -- the induction goes from the last name up, as the system does
  induction names using List.reverseRecOn generalizing later with
  | nil =>
      rw [Path.ancestors, Path.parents_ofNames_nil] at hmade
      have hensure : disk.ensure (ofNames []) = .ok later := by
        rcases ensureAll_cons_eq_ok hmade with hensure | ⟨middle, hnothing, hensure⟩
        · exact hensure
        · cases hnothing
          exact hensure
      rcases htree.ensure_eq_ok h hensure with ⟨hadds, hthere⟩
      exact ⟨hadds.mono fun place hplace => ⟨[], List.prefix_rfl, hplace⟩, hthere⟩
  | append_singleton names name ih =>
      have hfront : ∀ other ∈ names, IsName other := fun other hother =>
        h other (List.mem_append_left _ hother)
      rw [Path.ancestors_ofNames_concat h] at hmade
      rcases ensureAll_cons_eq_ok hmade with hensure | ⟨middle, habove, hensure⟩
      · rcases htree.ensure_eq_ok h hensure with ⟨hadds, hthere⟩
        exact ⟨hadds.mono fun place hplace => ⟨_, List.prefix_rfl, hplace⟩, hthere⟩
      · rcases ih hfront habove with ⟨hadds, _⟩
        rcases hadds.tree.ensure_eq_ok h hensure with ⟨hlast, hthere⟩
        rw [hadds.adds.base] at hlast hthere
        refine ⟨(hadds.trans hlast).mono fun place hplace => ?_, hthere⟩
        rcases hplace with ⟨front, hbegins, hplace⟩ | hplace
        · exact ⟨front, hbegins.trans (List.prefix_append _ _), hplace⟩
        · exact ⟨_, List.prefix_rfl, hplace⟩

/-- All places above a directory are directories. -/
theorem IsTree.directory_of_append (htree : disk.IsTree) {more : List String}
    (h : disk.entry? (more ++ place) = some .directory) : disk.entry? place = some .directory := by
  induction more with
  | nil => exact h
  | cons name more ih => exact ih (htree.inside _ _ _ h)

/-- Making a directory: it and the directories above it are there, and nothing else is new. -/
theorem IsTree.makeDirectories_eq_ok (htree : disk.IsTree) (h : p.IsPlain)
    (hmade : disk.makeDirectories p = (.ok (), later)) :
    later.IsTree ∧ AddsDirectories disk later ∧
      ∀ place, later.entry? place = some .directory ↔ disk.entry? place = some .directory ∨
        ∃ front, front <+: p.names ∧ place = front.reverse ++ disk.base := by
  have hancestors : ensureAll (ofNames p.names).ancestors disk = (.ok (), later) := by
    rw [Path.ofNames_names]
    exact hmade
  rcases htree.ensureAll_eq_ok (Path.isPlain_iff.mp h) hancestors with ⟨hadds, hthere⟩
  refine ⟨hadds.tree, hadds.adds, fun place => ⟨hadds.only place, ?_⟩⟩
  -- the deepest directory is there, and so all those around it are
  rintro (hplace | ⟨front, ⟨rest, hrest⟩, rfl⟩)
  · exact hadds.adds.entry?_eq hplace
  · rw [← hrest, List.reverse_append, List.append_assoc] at hthere
    exact hadds.tree.directory_of_append hthere

/-! ## Listing -/

/-- A directory has the names of the files in it. -/
theorem fileNameIn_eq_some_iff {e : Place × Entry} :
    fileNameIn place e = some name ↔ ∃ bytes, e = (name :: place, .file bytes) := by
  rcases e with ⟨_ | ⟨first, rest⟩, bytes | _⟩
  · simp [fileNameIn]
  · simp [fileNameIn]
  · by_cases hrest : rest = place
    · simp [fileNameIn, hrest]
    · simp [fileNameIn, hrest]
  · simp [fileNameIn]

/-- Two files of one name in one directory would be entries at one place. -/
theorem namesDiffer_of_list (hapart : disk.entries.Pairwise fun a b => a.1 ≠ b.1)
    (hnamed : ∀ name directory entry, (name :: directory, entry) ∈ disk.entries → IsName name)
    {files : List Path} (hlist : disk.list p = .ok files) : files.Pairwise Path.NamesDiffer := by
  rcases bind_eq_ok_iff.mp hlist with ⟨⟨place, bytes | _⟩, _, hlist⟩
  · cases hlist
  · cases hlist
    rw [List.pairwise_map, List.pairwise_filterMap]
    refine hapart.imp_of_mem ?_
    intro a b ha hb hne first hfirst second hsecond
    rcases fileNameIn_eq_some_iff.mp hfirst with ⟨bytes, rfl⟩
    rcases fileNameIn_eq_some_iff.mp hsecond with ⟨bytes', rfl⟩
    intro name hnamea hnameb
    rw [Path.fileName?_join p (hnamed _ _ _ ha)] at hnamea
    rw [Path.fileName?_join p (hnamed _ _ _ hb)] at hnameb
    exact hne (by rw [Option.some.inj hnamea, Option.some.inj hnameb])

/-- The files that are listed are those in the directory, each one once. -/
theorem IsTree.list_eq_ok (htree : disk.IsTree) (h : p.IsPlain) {files : List Path}
    (hlist : disk.list p = .ok files) :
    disk.entry? (disk.below p) = some .directory ∧
      files.Pairwise Path.NamesDiffer ∧
      ∀ q, q ∈ files ↔ ∃ name bytes, IsName name ∧ q = p.join ⟨name⟩ ∧
        disk.entry? (name :: disk.below p) = some (.file bytes) := by
  have hdiffer := namesDiffer_of_list htree.apart htree.named hlist
  rcases bind_eq_ok_iff.mp hlist with ⟨⟨place, bytes | _⟩, hfind, hlist⟩
  · cases hlist
  · rcases htree.find_eq_ok h hfind with ⟨rfl, hdirectory⟩
    cases hlist
    refine ⟨hdirectory, hdiffer, fun q => ?_⟩
    simp only [List.mem_map, List.mem_filterMap, fileNameIn_eq_some_iff]
    constructor
    · rintro ⟨name, ⟨e, he, bytes, rfl⟩, rfl⟩
      exact ⟨name, bytes, htree.named _ _ _ he, rfl, htree.mem_entries_iff.mp he⟩
    · rintro ⟨name, bytes, hname, rfl, hentry⟩
      exact ⟨name, ⟨_, htree.mem_entries_iff.mpr hentry, bytes, rfl⟩, rfl⟩

/-- A directory that is missing when it is listed is not found. -/
theorem find_of_list_missing (hlist : disk.list p = .error .missing) :
    disk.find p = .error .missing := by
  rcases bind_eq_error_iff.mp hlist with hfind | ⟨⟨place, bytes | _⟩, _, hlist⟩
  · exact hfind
  · cases hlist
  · cases hlist

end OperatorBundle.Store.Disk
