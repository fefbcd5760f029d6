import OperatorBundle.Proofs.Build.Effect
import OperatorBundle.Proofs.Manifest.Source

/-!
# What a build that succeeds leaves behind

`isBuilt_of_run_eq_ok` describes the outcome and the whole store after a build that succeeded: the
copies, the descriptor, and that nothing else was touched.  The copies hold what the originals held
at the beginning, also if the bundle is built in the directory of the originals.
-/

namespace OperatorBundle.Build

open Calendar (Instant)
open Store (Memory)

/-- What is true of a bundle built from `files`, whose descriptor has the given text. -/
structure IsBuilt (config : Config) (request : Request) (now : Instant) (initial final : Memory)
    (outcome : Outcome) (files : List NamedFile) (text : String) : Prop where
  version_eq : outcome.version.text =
    config.bundle.versionBase ++ "." ++ request.commitCount ++ "-" ++ request.commitHash
  versionDir_eq : outcome.versionDir = request.outputDir.join ⟨outcome.version.text⟩
  descriptorPath_eq : outcome.descriptorPath = outcome.versionDir.join
    ⟨config.bundle.name ++ ".v" ++ outcome.version.text ++ ".clusterserviceversion.yaml"⟩
  copiedCrds_eq : outcome.copiedCrds = files.map fun file => outcome.versionDir.join ⟨file.1⟩
  /-- No two copies lie at one place. -/
  copies_apart : outcome.copiedCrds.Pairwise fun p q => p.components ≠ q.components
  /-- The descriptor is written last, so it is what is found at its path. -/
  text_descriptor : ∀ q, outcome.descriptorPath.components = q.components →
    final.text? q = some text
  /-- A copy holds what its original held before the build. -/
  text_copy : ∀ file ∈ files, ∀ q, (outcome.versionDir.join ⟨file.1⟩).components = q.components →
    outcome.descriptorPath.components ≠ q.components →
      final.text? q = initial.text? file.2 ∧ (initial.text? file.2).isSome
  /-- All other files are as they were. -/
  text_other : ∀ q, (∀ p ∈ outcome.copiedCrds, p.components ≠ q.components) →
    outcome.descriptorPath.components ≠ q.components → final.text? q = initial.text? q
  /-- The directories of the bundle and those above them were made, as far as they have names. -/
  directories : ∀ q, final.HasDirectory q ↔ initial.HasDirectory q ∨
    ∃ a ∈ request.outputDir.ancestors ++ outcome.versionDir.ancestors,
      a.text ≠ "" ∧ a.components = q.components
  /-- The descriptor is made of the template and the resource definitions as they were before the
  build, and of the role and the deployment as they are when the copies are made. -/
  text_made : ∃ template crds, manifestIn initial ⟨config.inputs.template⟩ = .ok template ∧
    files.mapM (summary initial) = .ok crds ∧
    descriptorIn config request now template crds
      (initial.writeAll (copies outcome.versionDir initial files)) = .ok text

/-- If every file has a summary, all are copied. -/
theorem reached_eq_self {store : Memory} {files : List NamedFile} {crds : List OwnedCrd}
    (h : files.mapM (summary store) = .ok crds) : reached store files = files := by
  induction files generalizing crds with
  | nil => rfl
  | cons file files ih =>
      obtain ⟨crd, rest, hfile, hrest, _⟩ := mapM_cons_eq_ok_iff.mp h
      rw [reached, hfile, ih hrest]

/-- The files that are copied come first. -/
theorem take_length_reached (store : Memory) (files : List NamedFile) :
    files.take (reached store files).length = reached store files := by
  induction files with
  | nil => rfl
  | cons file files ih =>
      unfold reached
      split
      · rw [List.length_cons, List.take_succ_cons, ih]
      · rfl

/-- What is known when a build succeeds: each part of it has a result. -/
theorem effect_eq_ok {config : Config} {request : Request} {now : Instant} {store : Memory}
    {result : Outcome} (h : (effect config request now store).1 = .ok result) :
    ∃ template crds text, manifestIn store ⟨config.inputs.template⟩ = .ok template ∧
      (selection config store).mapM (summary store) = .ok crds ∧
      descriptorIn config request now template crds (store.writeAll
        (copies (bundleDir config request) store (selection config store))) = .ok text ∧
      result = outcome config request (selection config store) ∧
      (effect config request now store).2 =
        copies (bundleDir config request) store (selection config store) ++
          [(descriptorPath config request, text)] := by
  unfold effect at h ⊢
  simp only at h ⊢
  split at h
  · cases h
  · rename_i template htemplate
    split at h
    · cases h
    · rename_i listed hlisted
      split at h
      · cases h
      · rename_i crds hcrds
        rw [reached_eq_self hcrds] at h
        split at h
        · cases h
        · rename_i text htext
          refine ⟨template, crds, text, htemplate, hcrds, htext, (Except.ok.inj h).symm, ?_⟩
          simp only [htext, reached_eq_self hcrds]

/-! ## Copies in the store -/

/-- Copies with different names lie at different places. -/
theorem destination_apart {directory : Path} {a b : NamedFile} (ha : Path.IsName a.1)
    (hb : Path.IsName b.1) (hne : a.1 ≠ b.1) :
    (destination directory a).components ≠ (destination directory b).components :=
  destination_ne ha (Path.fileName?_join directory hb) hne

theorem pairwise_destination (config : Config) {store : Memory} (hmap : store.IsMap)
    (directory : Path) :
    ((selection config store).map (destination directory)).Pairwise
      fun p q => p.components ≠ q.components := by
  rw [List.pairwise_map]
  refine (pairwise_selection hmap).imp_of_mem ?_
  intro a b ha hb hlt
  exact destination_apart (isName_of_mem_selection ha) (isName_of_mem_selection hb)
    (String.ne_of_lt hlt)

theorem mem_copies {directory : Path} {store : Memory} {files : List NamedFile}
    {write : Path × String} :
    write ∈ copies directory store files ↔
      ∃ file ∈ files, (destination directory file, (store.text? file.2).getD "") = write :=
  List.mem_map

/-- Where a copy lies the text of its original is found. -/
theorem text?_writeAll_copies {config : Config} {store : Memory} (base : Memory)
    (hmap : store.IsMap) (directory : Path) {files : List NamedFile}
    (hfiles : ∀ file ∈ files, file ∈ selection config store) {file : NamedFile}
    (hfile : file ∈ files) {q : Path}
    (hq : (destination directory file).components = q.components) :
    (base.writeAll (copies directory store files)).text? q = store.text? file.2 := by
  have hselected := hfiles file hfile
  rcases text?_of_mem_selection hmap hselected with ⟨text, htext⟩
  rw [htext]
  apply Memory.text?_writeAll_of_mem
  · refine ⟨_, mem_copies.mpr ⟨file, hfile, rfl⟩, hq⟩
  · -- any other copy there would have the same name, and so the same original
    intro write hwrite hsame
    rcases mem_copies.mp hwrite with ⟨other, hother, rfl⟩
    have hname : other.1 = file.1 := Decidable.byContradiction fun hne =>
      destination_apart (isName_of_mem_selection (hfiles other hother))
        (isName_of_mem_selection hselected) hne (hsame.trans hq.symm)
    have horiginal : other.2.components = file.2.components := by
      have ho := mem_selection.mp (hfiles other hother)
      have hf := mem_selection.mp hselected
      rw [Memory.components_of_standsIn ho.2.1 ho.2.2.1, Memory.components_of_standsIn hf.2.1 hf.2.2.1, hname]
    simp only [Memory.text?_congr store horiginal, htext, Option.getD_some]

/-- Where no copy lies nothing is changed by copying. -/
theorem text?_writeAll_copies_of_ne {directory : Path} {store base : Memory}
    {files : List NamedFile} {q : Path}
    (h : ∀ file ∈ files, (destination directory file).components ≠ q.components) :
    (base.writeAll (copies directory store files)).text? q = base.text? q := by
  apply Memory.text?_writeAll_of_ne
  intro write hwrite
  rcases mem_copies.mp hwrite with ⟨file, hfile, rfl⟩
  exact h file hfile

/-- The directories after a build, whatever it wrote. -/
theorem hasDirectory_writeAll_prepared (config : Config) (request : Request) (store : Memory)
    (writes : List (Path × String)) (q : Path) :
    ((prepared config request store).writeAll writes).HasDirectory q ↔ store.HasDirectory q ∨
      ∃ a ∈ request.outputDir.ancestors ++ (bundleDir config request).ancestors,
        a.text ≠ "" ∧ a.components = q.components := by
  have hdirectories : ((prepared config request store).writeAll writes).HasDirectory q ↔
      (prepared config request store).HasDirectory q := by
    rw [Memory.HasDirectory, Memory.directories_writeAll]
    rfl
  rw [hdirectories, prepared, Memory.hasDirectory_makeDirectories,
    Memory.hasDirectory_makeDirectories, or_assoc]
  simp only [List.mem_append, or_and_right, exists_or]

/-- What a build that succeeds puts at the path of the descriptor is the written form of what it
assembled. -/
theorem rendered_of_run_eq_ok {config : Config} {request : Request} {now : Instant}
    {store final : Memory} {result : Outcome} (hmap : store.IsMap)
    (h : (run config request now : StoreM Memory Outcome).run store = (.ok result, final)) :
    ∃ csv text, assembledIn config request now store = .ok csv ∧ Manifest.render csv = .ok text ∧
      final.text? result.descriptorPath = some text := by
  rw [run_eq config request now hmap] at h
  rcases Prod.mk.inj h with ⟨hresult, hfinal⟩
  rcases effect_eq_ok hresult with ⟨template, crds, text, htemplate, hcrds, htext, rfl, hwrites⟩
  rcases bind_eq_ok_iff.mp htext with ⟨permission, hpermission, htext⟩
  rcases bind_eq_ok_iff.mp htext with ⟨deployment, hdeployment, htext⟩
  rw [descriptorText_eq] at htext
  rcases bind_eq_ok_iff.mp htext with ⟨csv, hcsv, hrender⟩
  refine ⟨csv, text, ?_, hrender, ?_⟩
  · simp only [assembledIn, assembled, htemplate, hcrds, hpermission, hdeployment]
    exact hcsv
  · rw [hwrites, Memory.writeAll_append] at hfinal
    rw [← hfinal]
    exact (Memory.text?_write _ _ _ _).trans (if_pos rfl)

/-! ## The result -/

/-- A build that succeeds leaves the copies of all resource definitions and the descriptor, and
touches nothing else. -/
theorem isBuilt_of_run_eq_ok {config : Config} {request : Request} {now : Instant}
    {store final : Memory} {result : Outcome} (hmap : store.IsMap)
    (h : (run config request now : StoreM Memory Outcome).run store = (.ok result, final)) :
    ∃ files text, IsSelection config store files ∧
      IsBuilt config request now store final result files text := by
  rw [run_eq config request now hmap] at h
  rcases Prod.mk.inj h with ⟨hresult, hfinal⟩
  rcases effect_eq_ok hresult with ⟨template, crds, text, htemplate, hcrds, htext, rfl, hwrites⟩
  rw [hwrites, Memory.writeAll_append] at hfinal
  have hshown : ∀ q, final.text? q =
      if (descriptorPath config request).components = q.components then some text
      else ((prepared config request store).writeAll
        (copies (bundleDir config request) store (selection config store))).text? q := by
    intro q
    rw [← hfinal]
    exact Memory.text?_write _ _ _ _
  refine ⟨selection config store, text, isSelection_selection config hmap, ?_⟩
  exact {
    version_eq := rfl
    versionDir_eq := rfl
    descriptorPath_eq := rfl
    copiedCrds_eq := rfl
    copies_apart := pairwise_destination config hmap (bundleDir config request)
    text_descriptor := by
      intro q hq
      exact (hshown q).trans (if_pos hq)
    text_copy := by
      intro file hfile q hq hother
      rcases text?_of_mem_selection hmap hfile with ⟨before, hbefore⟩
      have hcopy := text?_writeAll_copies (prepared config request store) hmap
        (bundleDir config request) (fun _ hmem => hmem) hfile hq
      exact ⟨((hshown q).trans (if_neg hother)).trans hcopy, by rw [hbefore]; rfl⟩
    text_other := by
      intro q hcopies hother
      rw [(hshown q).trans (if_neg hother)]
      exact text?_writeAll_copies_of_ne fun file hfile =>
        hcopies _ (List.mem_map.mpr ⟨file, hfile, rfl⟩)
    directories := by
      intro q
      have hmade := hasDirectory_writeAll_prepared config request store
        (copies (bundleDir config request) store (selection config store) ++
          [(descriptorPath config request, text)]) q
      rw [Memory.writeAll_append, hfinal] at hmade
      exact hmade
    text_made := ⟨template, crds, htemplate, hcrds, htext⟩ }

/-- The small build succeeds, so its bundle is complete. -/
theorem isBuilt_small :
    smallStore.IsMap ∧ ∃ result final files text,
      (run smallConfig smallRequest ⟨0, 0⟩ : StoreM Memory Outcome).run smallStore =
        (.ok result, final) ∧
      IsSelection smallConfig smallStore files ∧
      IsBuilt smallConfig smallRequest ⟨0, 0⟩ smallStore final result files text := by
  have hok : ((run smallConfig smallRequest ⟨0, 0⟩ : StoreM Memory Outcome).run
      smallStore).1.isOk = true := by
    decide +kernel
  rcases hrun : (run smallConfig smallRequest ⟨0, 0⟩ : StoreM Memory Outcome).run smallStore with
    ⟨result, final⟩
  rw [hrun] at hok
  cases result with
  | error e => cases hok
  | ok result =>
      rcases isBuilt_of_run_eq_ok isMap_smallStore hrun with ⟨files, text, hfiles, hbuilt⟩
      exact ⟨isMap_smallStore, result, final, files, text, rfl, hfiles, hbuilt⟩

end OperatorBundle.Build
