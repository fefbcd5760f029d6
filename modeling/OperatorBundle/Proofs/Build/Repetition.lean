import OperatorBundle.Proofs.Build.Success
import OperatorBundle.Proofs.Manifest.Stamp

/-!
# Building again

What earlier builds left behind has no part in a later one, as long as no input is among the paths
that a build writes to.  `isUnaffected_of_areAlike` compares the builds on two stores that differ in
such leftovers, and from it follows what happens when a build is repeated.
-/

namespace OperatorBundle.Build

open Calendar (Instant)
open Store (Memory)
open Yaml (Value)

/-- May a build that finds these resource definitions write to this path? -/
def IsWritten (config : Config) (request : Request) (files : List NamedFile) (p : Path) : Prop :=
  (∃ file ∈ files, (destination (bundleDir config request) file).components = p.components) ∨
    (descriptorPath config request).components = p.components

instance (config : Config) (request : Request) (files : List NamedFile) (p : Path) :
    Decidable (IsWritten config request files p) := inferInstanceAs (Decidable (_ ∨ _))

/-- No input of a build is at a path that it may write to, and no such path stands in the directory
of resource definitions. -/
structure IsApart (config : Config) (request : Request) (files : List NamedFile) : Prop where
  template : ¬ IsWritten config request files ⟨config.inputs.template⟩
  clusterRole : ¬ IsWritten config request files ⟨config.inputs.clusterRole⟩
  operator : ¬ IsWritten config request files ⟨config.inputs.operator⟩
  crdDir : ∀ p q, IsWritten config request files p → p.parent? = some q →
    q.components ≠ (Path.mk config.inputs.crdDir).components

/-- Two stores differ in nothing but files at paths that a build may write to, and in directories
that are those of its bundle or above these. -/
structure AreAlike (config : Config) (request : Request) (files : List NamedFile) (a b : Memory) :
    Prop where
  files_iff : ∀ p text, ¬ IsWritten config request files p →
    ((p, text) ∈ a.files ↔ (p, text) ∈ b.files)
  directories_iff : ∀ q,
    (∀ d ∈ request.outputDir.ancestors ++ (bundleDir config request).ancestors,
      d.components ≠ q.components) → (a.HasDirectory q ↔ b.HasDirectory q)

/-- Builds on two stores answer alike and write the same, and only where a build may write. -/
def IsUnaffected (config : Config) (request : Request) (now : Instant) (files : List NamedFile)
    (a b : Memory) : Prop :=
  ∃ result writes, (∀ write ∈ writes, IsWritten config request files write.1) ∧
    (run config request now : StoreM Memory Outcome).run a =
      (result, (prepared config request a).writeAll writes) ∧
    (run config request now : StoreM Memory Outcome).run b =
      (result, (prepared config request b).writeAll writes)

/-- Building again on the store that a build left behind, whether it succeeded or failed. -/
structure IsRepeatable (config : Config) (request : Request) (now : Instant) (store : Memory) :
    Prop where
  /-- The answer is the same, and nothing in the store is changed. -/
  again : ∀ result final,
    (run config request now : StoreM Memory Outcome).run store = (result, final) →
      (run config request now : StoreM Memory Outcome).run final = (result, final)
  /-- At another time what is assembled differs in its stamp alone, if at all. -/
  restamped : ∀ result final later,
    (run config request now : StoreM Memory Outcome).run store = (result, final) →
      DiffersAt [.key "metadata", .key "annotations", .key "createdAt"] (.string later.stamp)
        (assembledIn config request now store) (assembledIn config request later final)

variable {config : Config} {request : Request} {files : List NamedFile} {a b : Memory}

theorem isWritten_congr {p q : Path} (h : p.components = q.components) :
    IsWritten config request files p ↔ IsWritten config request files q := by
  rw [IsWritten, IsWritten, h]

/-- Whatever a build may write has one name more than the directory of its bundle. -/
theorem exists_components_of_isWritten
    (hname : Path.IsName (descriptorFileName config.bundle.name (request.version config)))
    (hfiles : ∀ file ∈ files, Path.IsName file.1) {p : Path}
    (hp : IsWritten config request files p) :
    ∃ name, p.components = (bundleDir config request).components ++ [.name name] := by
  rcases hp with ⟨file, hfile, hsame⟩ | hsame
  · exact ⟨file.1, hsame.symm.trans (Path.components_join _ (hfiles file hfile))⟩
  · exact ⟨_, hsame.symm.trans (Path.components_join _ hname)⟩

/-! ## Stores that are alike -/

/-- Alike stores show the same text where nothing is written. -/
theorem AreAlike.text?_eq (h : AreAlike config request files a b) (ha : a.IsMap) (hb : b.IsMap)
    {p : Path} (hp : ¬ IsWritten config request files p) : a.text? p = b.text? p := by
  have hfound : ∀ text, a.text? p = some text ↔ b.text? p = some text := by
    intro text
    constructor
    · intro htext
      rcases Memory.exists_mem_of_text? htext with ⟨q, hq, hsame⟩
      have hmem := (h.files_iff q text fun hw => hp ((isWritten_congr hsame).mp hw)).mp hq
      rw [← Memory.text?_congr b hsame]
      exact Memory.text?_of_mem hb hmem
    · intro htext
      rcases Memory.exists_mem_of_text? htext with ⟨q, hq, hsame⟩
      have hmem := (h.files_iff q text fun hw => hp ((isWritten_congr hsame).mp hw)).mpr hq
      rw [← Memory.text?_congr a hsame]
      exact Memory.text?_of_mem ha hmem
  exact Option.ext hfound

/-- No file that stands in the directory of resource definitions is written to. -/
theorem IsApart.not_isWritten (h : IsApart config request files) {p : Path}
    (hp : Memory.standsIn ⟨config.inputs.crdDir⟩ p = true) : ¬ IsWritten config request files p := by
  intro hw
  rcases Memory.standsIn_iff.mp hp with ⟨q, hq, hsame⟩
  exact h.crdDir p q hw hq hsame

/-- Alike stores hold the same resource definitions. -/
theorem AreAlike.selection_eq (h : AreAlike config request files a b) (ha : a.IsMap) (hb : b.IsMap)
    (hapart : IsApart config request files) : selection config a = selection config b := by
  refine eq_of_mem_iff (isSelection_selection config ha).ascending
    (isSelection_selection config hb).ascending fun file => ?_
  rw [mem_selection, mem_selection]
  refine and_congr_left fun ⟨hstands, _⟩ => ?_
  exact exists_congr fun text => h.files_iff file.2 text (hapart.not_isWritten hstands)

/-- The directories that a build makes are there when it lists; of all others alike stores have the
same.  The empty path is none of those it makes. -/
theorem AreAlike.hasDirectory_prepared (h : AreAlike config request files a b) {q : Path}
    (hempty : q.components = [] → (a.HasDirectory q ↔ b.HasDirectory q)) :
    (prepared config request a).HasDirectory q ↔ (prepared config request b).HasDirectory q := by
  have ha := hasDirectory_writeAll_prepared config request a [] q
  have hb := hasDirectory_writeAll_prepared config request b [] q
  rw [Memory.writeAll_nil] at ha hb
  rw [ha, hb]
  by_cases hmade : ∃ d ∈ request.outputDir.ancestors ++ (bundleDir config request).ancestors,
      d.text ≠ "" ∧ d.components = q.components
  · exact iff_of_true (Or.inr hmade) (Or.inr hmade)
  · refine or_congr_left ?_
    by_cases hq : q.components = []
    · exact hempty hq
    · refine h.directories_iff q fun d hd hsame => hmade ⟨d, hd, fun htext => hq ?_, hsame⟩
      rw [← hsame, ← Path.components_empty, ← htext]

/-- Whether there is a listing is the same in alike stores. -/
theorem AreAlike.list_eq_error_iff (h : AreAlike config request files a b)
    (hapart : IsApart config request files)
    (hempty : (Path.mk config.inputs.crdDir).components = [] →
      (a.HasDirectory ⟨config.inputs.crdDir⟩ ↔ b.HasDirectory ⟨config.inputs.crdDir⟩))
    (e : BundleError) :
    (prepared config request a).list ⟨config.inputs.crdDir⟩ = .error e ↔
      (prepared config request b).list ⟨config.inputs.crdDir⟩ = .error e := by
  have hfiles : ∀ file : Path × String, Memory.standsIn ⟨config.inputs.crdDir⟩ file.1 = true →
      (file ∈ a.files ↔ file ∈ b.files) := fun file hstands =>
    h.files_iff file.1 file.2 (hapart.not_isWritten hstands)
  rw [Memory.list_eq_error_iff, Memory.list_eq_error_iff, files_prepared, files_prepared,
    h.hasDirectory_prepared hempty]
  refine and_congr_left' (forall_congr' fun file => ?_)
  cases hstands : Memory.standsIn ⟨config.inputs.crdDir⟩ file.1 with
  | false => exact iff_of_true (fun _ => rfl) (fun _ => rfl)
  | true => rw [hfiles file hstands]

/-! ## One effect on both stores -/

theorem reached_congr {files : List NamedFile}
    (h : ∀ file ∈ files, summary a file = summary b file) : reached a files = reached b files := by
  induction files with
  | nil => rfl
  | cons file files ih =>
      rw [reached, reached, h file List.mem_cons_self,
        ih fun other hother => h other (List.mem_cons_of_mem file hother)]

theorem reached_subset (store : Memory) (files : List NamedFile) :
    ∀ file ∈ reached store files, file ∈ files := by
  intro file hfile
  rw [← take_length_reached store files] at hfile
  exact List.mem_of_mem_take hfile

theorem copies_congr {directory : Path} {files : List NamedFile}
    (h : ∀ file ∈ files, a.text? file.2 = b.text? file.2) :
    copies directory a files = copies directory b files :=
  List.map_congr_left fun file hfile => by rw [h file hfile]

theorem mapM_congr {α β : Type} {f g : α → Except BundleError β} {as : List α}
    (h : ∀ x ∈ as, f x = g x) : as.mapM f = as.mapM g := by
  induction as with
  | nil => rfl
  | cons x as ih =>
      rw [List.mapM_cons, List.mapM_cons, h x List.mem_cons_self,
        ih fun y hy => h y (List.mem_cons_of_mem x hy)]

/-- Every write of a build is one that it may make. -/
theorem isWritten_of_mem_effect (now : Instant) {store : Memory} {write : Path × String}
    (h : write ∈ (effect config request now store).2) :
    IsWritten config request (selection config store) write.1 := by
  -- whatever fails, the writes are the copies made by then, and the descriptor at most
  have hcopy : ∀ write ∈ copies (bundleDir config request) store
      (reached store (selection config store)),
      IsWritten config request (selection config store) write.1 := by
    intro write hwrite
    rcases mem_copies.mp hwrite with ⟨file, hfile, rfl⟩
    exact Or.inl ⟨file, reached_subset store _ file hfile, rfl⟩
  unfold effect at h
  simp only at h
  split at h
  · exact absurd h List.not_mem_nil
  split at h
  · exact absurd h List.not_mem_nil
  split at h
  · exact hcopy write h
  split at h
  · exact hcopy write h
  · rcases List.mem_append.mp h with h | h
    · exact hcopy write h
    · rw [List.mem_singleton.mp h]
      exact Or.inr rfl

/-- Alike stores stay alike where nothing is written when the same copies are made. -/
theorem AreAlike.text?_writeAll_eq (h : AreAlike config request (selection config a) a b)
    (ha : a.IsMap) (hb : b.IsMap) {files : List NamedFile}
    (hfiles : ∀ file ∈ files, file ∈ selection config a) {p : Path}
    (hp : ¬ IsWritten config request (selection config a) p) :
    (a.writeAll (copies (bundleDir config request) a files)).text? p =
      (b.writeAll (copies (bundleDir config request) b files)).text? p := by
  have hne : ∀ file ∈ files,
      (destination (bundleDir config request) file).components ≠ p.components :=
    fun file hfile hsame => hp (Or.inl ⟨file, hfiles file hfile, hsame⟩)
  rw [text?_writeAll_copies_of_ne hne, text?_writeAll_copies_of_ne hne]
  exact h.text?_eq ha hb hp

theorem AreAlike.summary_eq (h : AreAlike config request (selection config a) a b)
    (ha : a.IsMap) (hb : b.IsMap) (hapart : IsApart config request (selection config a)) :
    ∀ file ∈ selection config a, summary a file = summary b file :=
  fun _ hfile => summary_congr
    (h.text?_eq ha hb (hapart.not_isWritten (mem_selection.mp hfile).2.1))

/-- Builds on alike stores have the same effect. -/
theorem AreAlike.effect_eq (h : AreAlike config request (selection config a) a b) (ha : a.IsMap)
    (hb : b.IsMap) (hapart : IsApart config request (selection config a))
    (hempty : (Path.mk config.inputs.crdDir).components = [] →
      (a.HasDirectory ⟨config.inputs.crdDir⟩ ↔ b.HasDirectory ⟨config.inputs.crdDir⟩))
    (now : Instant) : effect config request now a = effect config request now b := by
  have hselection := h.selection_eq ha hb hapart
  have hsummaries := h.summary_eq ha hb hapart
  have hmapM : (selection config a).mapM (summary a) = (selection config a).mapM (summary b) :=
    mapM_congr hsummaries
  have htemplate : manifestIn a ⟨config.inputs.template⟩ = manifestIn b ⟨config.inputs.template⟩ :=
    manifestIn_congr (h.text?_eq ha hb hapart.template)
  -- the summaries decide how far the copying goes
  have hreached := reached_congr hsummaries
  have hsubset := reached_subset b (selection config a)
  have hcopies : copies (bundleDir config request) a (reached b (selection config a)) =
      copies (bundleDir config request) b (reached b (selection config a)) :=
    copies_congr fun file hfile => h.text?_eq ha hb
      (hapart.not_isWritten (mem_selection.mp (hsubset file hfile)).2.1)
  have hdescriptor := descriptorIn_congr
    (h.text?_writeAll_eq ha hb hsubset hapart.clusterRole)
    (h.text?_writeAll_eq ha hb hsubset hapart.operator)
  have hlist := h.list_eq_error_iff hapart hempty
  rw [hcopies] at hdescriptor
  unfold effect
  simp only [← hselection, hreached, htemplate, hcopies, hmapM, hdescriptor]
  cases manifestIn b ⟨config.inputs.template⟩ with
  | error e => rfl
  | ok template =>
      -- the listings may differ in their order, but both of them fail or none
      cases hlista : (prepared config request a).list ⟨config.inputs.crdDir⟩ with
      | error e => rw [(hlist e).mp hlista]
      | ok filesa =>
          cases hlistb : (prepared config request b).list ⟨config.inputs.crdDir⟩ with
          | error e =>
              rw [(hlist e).mpr hlistb] at hlista
              cases hlista
          | ok filesb => rfl

/-- Builds on alike stores assemble the same. -/
theorem AreAlike.assembledIn_eq (h : AreAlike config request (selection config a) a b)
    (ha : a.IsMap) (hb : b.IsMap) (hapart : IsApart config request (selection config a))
    (now : Instant) : assembledIn config request now a = assembledIn config request now b := by
  have hselection := h.selection_eq ha hb hapart
  have hmapM : (selection config a).mapM (summary a) = (selection config a).mapM (summary b) :=
    mapM_congr (h.summary_eq ha hb hapart)
  have htemplate : manifestIn a ⟨config.inputs.template⟩ = manifestIn b ⟨config.inputs.template⟩ :=
    manifestIn_congr (h.text?_eq ha hb hapart.template)
  have hrole := h.text?_writeAll_eq ha hb (fun _ hfile => hfile) hapart.clusterRole
  have hoperator := h.text?_writeAll_eq ha hb (fun _ hfile => hfile) hapart.operator
  unfold assembledIn assembled permissionIn deploymentIn
  simp only [← hselection, hmapM, htemplate, manifestIn_congr hrole, Memory.read_congr hoperator]

/-! ## The store after a build -/

/-- A build leaves a store that is like the one before. -/
theorem areAlike_writeAll {writes : List (Path × String)}
    (h : ∀ write ∈ writes, IsWritten config request files write.1) :
    AreAlike config request files a ((prepared config request a).writeAll writes) where
  files_iff p text hp := by
    have hne : ∀ write ∈ writes, write.1.components ≠ p.components :=
      fun write hwrite hsame => hp ((isWritten_congr hsame).mp (h write hwrite))
    rw [Memory.mem_files_writeAll_of_ne hne]
    rfl
  directories_iff q hq := by
    rw [hasDirectory_writeAll_prepared]
    constructor
    · exact Or.inl
    · rintro (hthere | ⟨d, hd, _, hsame⟩)
      · exact hthere
      · exact absurd hsame (hq d hd)

/-- The directories of a bundle are made once. -/
theorem prepared_writeAll_prepared (config : Config) (request : Request) (store : Memory)
    (writes : List (Path × String)) :
    prepared config request ((prepared config request store).writeAll writes) =
      (prepared config request store).writeAll writes := by
  have hmade : ∀ d ∈ request.outputDir.ancestors ++ (bundleDir config request).ancestors,
      d.text ≠ "" → ((prepared config request store).writeAll writes).HasDirectory d := by
    intro d hd htext
    exact (hasDirectory_writeAll_prepared config request store writes d).mpr
      (Or.inr ⟨d, hd, htext, rfl⟩)
  have houtput := Memory.makeDirectories_eq_self fun d hd =>
    hmade d (List.mem_append_left _ hd)
  have hbundle := Memory.makeDirectories_eq_self fun d hd =>
    hmade d (List.mem_append_right _ hd)
  rw [prepared, houtput, hbundle]

/-- Assembling at another time changes the stamp alone. -/
theorem assembledIn_differsAt (config : Config) (request : Request) (now later : Instant)
    (store : Memory) :
    DiffersAt [.key "metadata", .key "annotations", .key "createdAt"] (.string later.stamp)
      (assembledIn config request now store) (assembledIn config request later store) := by
  unfold assembledIn assembled
  refine DiffersAt.bind _ fun template => DiffersAt.bind _ fun crds => DiffersAt.bind _
    fun permission => DiffersAt.bind _ fun deployment => ?_
  exact Descriptor.assemble_differsAt _ later _ _

/-! ## The result -/

/-- What earlier builds left behind does not change a build: where no input is among the paths that
are written to, stores that are alike yield the same answer and the same writes.  The empty path is
never made a directory, so if the resource definitions are to be there, then both stores have that
directory or neither has. -/
theorem isUnaffected_of_areAlike (now : Instant) (ha : a.IsMap) (hb : b.IsMap)
    (hfiles : IsSelection config a files) (hapart : IsApart config request files)
    (halike : AreAlike config request files a b)
    (hempty : (Path.mk config.inputs.crdDir).components = [] →
      (a.HasDirectory ⟨config.inputs.crdDir⟩ ↔ b.HasDirectory ⟨config.inputs.crdDir⟩)) :
    IsUnaffected config request now files a b ∧ IsRepeatable config request now a := by
  have hselection := hfiles.unique (isSelection_selection config ha)
  subst hselection
  have hwritten : ∀ write ∈ (effect config request now a).2,
      IsWritten config request (selection config a) write.1 :=
    fun write hwrite => isWritten_of_mem_effect now hwrite
  have hafter := areAlike_writeAll (a := a) hwritten
  have hprepared : (prepared config request a).IsMap := ha
  have hmap := hprepared.writeAll (effect config request now a).2
  -- the directories that a build makes have names, so the empty path is not among them
  have hemptyAfter : (Path.mk config.inputs.crdDir).components = [] →
      (a.HasDirectory ⟨config.inputs.crdDir⟩ ↔ ((prepared config request a).writeAll
        (effect config request now a).2).HasDirectory ⟨config.inputs.crdDir⟩) := by
    intro hcrdDir
    rw [hasDirectory_writeAll_prepared]
    constructor
    · exact Or.inl
    · rintro (hthere | ⟨d, _, htext, hsame⟩)
      · exact hthere
      · exact absurd (Path.text_eq_empty (hsame.trans hcrdDir)) htext
  constructor
  · refine ⟨(effect config request now a).1, (effect config request now a).2, hwritten,
      run_eq config request now ha, ?_⟩
    rw [halike.effect_eq ha hb hapart hempty now]
    exact run_eq config request now hb
  · constructor
    · intro result final h
      rw [run_eq config request now ha] at h
      rcases Prod.mk.inj h with ⟨rfl, rfl⟩
      rw [run_eq config request now hmap, ← hafter.effect_eq ha hmap hapart hemptyAfter now,
        prepared_writeAll_prepared, Memory.writeAll_writeAll]
    · intro result final later h
      rw [run_eq config request now ha] at h
      rcases Prod.mk.inj h with ⟨rfl, rfl⟩
      rw [← hafter.assembledIn_eq ha hmap hapart later]
      exact assembledIn_differsAt config request now later a

/-! ## Two pairs of stores -/

/-- No path that is written to stands in the directory of resource definitions, unless the bundle is
built there. -/
theorem components_ne_of_isWritten
    (hname : Path.IsName (descriptorFileName config.bundle.name (request.version config)))
    (hfiles : ∀ file ∈ files, Path.IsName file.1)
    (hne : (bundleDir config request).components ≠ (Path.mk config.inputs.crdDir).components)
    (p q : Path) (hp : IsWritten config request files p) (hq : p.parent? = some q) :
    q.components ≠ (Path.mk config.inputs.crdDir).components := by
  rcases exists_components_of_isWritten hname hfiles hp with ⟨name, hcomponents⟩
  rcases Memory.standsIn_iff.mp (Memory.standsIn_of_components hcomponents) with ⟨parent, hparent, hsame⟩
  rw [Option.some.inj (hq.symm.trans hparent), hsame]
  exact hne

/-- The small build goes as it would if nothing of an older bundle were there. -/
theorem isUnaffected_small :
    let old := (prepared smallConfig smallRequest smallStore).writeAll
      [(⟨"out/0.1.2-b/a.y"⟩, "an older copy")]
    let files := selection smallConfig smallStore
    smallStore.IsMap ∧ old.IsMap ∧ IsSelection smallConfig smallStore files ∧
      IsApart smallConfig smallRequest files ∧
      AreAlike smallConfig smallRequest files smallStore old ∧
      IsUnaffected smallConfig smallRequest ⟨0, 0⟩ files smallStore old ∧
      IsRepeatable smallConfig smallRequest ⟨0, 0⟩ smallStore := by
  intro old files
  have hfiles : files = [("a.y", ⟨"d/a.y"⟩), ("b.y", ⟨"d/b.y"⟩)] := by decide +kernel
  have hselection : IsSelection smallConfig smallStore files :=
    isSelection_selection smallConfig isMap_smallStore
  have hprepared : (prepared smallConfig smallRequest smallStore).IsMap := isMap_smallStore
  have hold : old.IsMap := hprepared.writeAll _
  have hnames : ∀ file ∈ files, Path.IsName file.1 := fun file hfile =>
    isName_of_mem_selection hfile
  have hapart : IsApart smallConfig smallRequest files := by
    rw [hfiles] at hnames ⊢
    exact {
      template := by decide +kernel
      clusterRole := by decide +kernel
      operator := by decide +kernel
      crdDir := components_ne_of_isWritten (by decide +kernel) hnames (by decide +kernel) }
  have halike : AreAlike smallConfig smallRequest files smallStore old := by
    refine areAlike_writeAll fun write hwrite => ?_
    rw [List.mem_singleton.mp hwrite, hfiles]
    decide +kernel
  have hboth := isUnaffected_of_areAlike ⟨0, 0⟩ isMap_smallStore hold hselection hapart halike
    fun h => absurd h (by decide +kernel)
  exact ⟨isMap_smallStore, hold, hselection, hapart, halike, hboth.1, hboth.2⟩

/-- A configuration whose resource definitions are where paths begin. -/
def rootConfig : Config where
  bundle := smallConfig.bundle
  inputs := { template := "i/t", crdDir := "", crdSuffix := ".y", clusterRole := "i/r",
              operator := "i/o" }

/-- A store without resource definitions. -/
def rootStore : Memory where
  files :=
    [(⟨"i/t"⟩, "{metadata: {}, spec: {install: {spec: {deployments: [{}]}}}}"),
     (⟨"i/r"⟩, "rules: []"),
     (⟨"i/o"⟩, "spec: {template: {spec: {containers: [{}]}}}")]

/-- The empty path stands above all relative ones and is not made when they are.  Whether it is a
directory does matter, since a build on one of these stores succeeds and on the other it fails. -/
theorem not_isUnaffected_root :
    let made : Memory := { rootStore with directories := [⟨""⟩] }
    made.IsMap ∧ rootStore.IsMap ∧ IsSelection rootConfig made [] ∧
      IsApart rootConfig smallRequest [] ∧ AreAlike rootConfig smallRequest [] made rootStore ∧
      ¬ IsUnaffected rootConfig smallRequest ⟨0, 0⟩ [] made rootStore := by
  intro made
  have hmap : rootStore.IsMap := by
    unfold Memory.IsMap
    decide +kernel
  have hmade : made.IsMap := hmap
  have hnone : selection rootConfig made = [] := by decide +kernel
  have hselection : IsSelection rootConfig made [] := hnone ▸ isSelection_selection rootConfig hmade
  have hapart : IsApart rootConfig smallRequest [] := {
    template := by decide +kernel
    clusterRole := by decide +kernel
    operator := by decide +kernel
    crdDir := components_ne_of_isWritten (by decide +kernel)
      (fun _ h => absurd h List.not_mem_nil) (by decide +kernel) }
  have hempty : (⟨""⟩ : Path) ∈ smallRequest.outputDir.ancestors := by decide +kernel
  have halike : AreAlike rootConfig smallRequest [] made rootStore := {
    files_iff := fun _ _ _ => Iff.rfl
    directories_iff := by
      intro q hq
      have hne := hq ⟨""⟩ (List.mem_append_left _ hempty)
      constructor
      · rintro ⟨d, hd, hsame⟩
        rw [List.mem_singleton.mp hd] at hsame
        exact absurd hsame hne
      · rintro ⟨d, hd, _⟩
        exact absurd hd List.not_mem_nil }
  refine ⟨hmade, hmap, hselection, hapart, halike, ?_⟩
  rintro ⟨result, writes, _, hrunMade, hrun⟩
  have hok : ((run rootConfig smallRequest ⟨0, 0⟩ : StoreM Memory Outcome).run made).1.isOk =
      true := by
    decide +kernel
  have herror : ((run rootConfig smallRequest ⟨0, 0⟩ : StoreM Memory Outcome).run
      rootStore).1.isOk = false := by
    decide +kernel
  rw [hrunMade] at hok
  rw [hrun] at herror
  exact Bool.noConfusion (hok.symm.trans herror)

end OperatorBundle.Build
