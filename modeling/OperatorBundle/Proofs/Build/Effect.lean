import OperatorBundle.Proofs.Build.Selection
import OperatorBundle.Proofs.Outcome

/-!
# What a build does to a store in memory

A build reads and writes by turns, and it may read what it has written.  `effect` says what comes of
it as a function of the store that it starts on: the result, and the texts that it puts into files.
The main statement is `run_eq`.  Its heart is `run_mapM_collectCrd`: no copy changes a resource
definition that is still to be read, because a copy has the name of its original and no two originals
share a name.
-/

namespace OperatorBundle.Build

open Calendar (Instant)
open Store (Memory)
open Yaml (Value)

/-! ## Places -/

/-- The directory of the bundle. -/
def bundleDir (config : Config) (request : Request) : Path :=
  request.outputDir.join ⟨(request.version config).directoryName⟩

/-- Where the descriptor is put. -/
def descriptorPath (config : Config) (request : Request) : Path :=
  (bundleDir config request).join ⟨descriptorFileName config.bundle.name (request.version config)⟩

/-- Where the copy of a resource definition is put. -/
def destination (directory : Path) (file : NamedFile) : Path := directory.join ⟨file.1⟩

/-- The store with the directories that every build makes first. -/
def prepared (config : Config) (request : Request) (store : Memory) : Memory :=
  (store.makeDirectories request.outputDir).makeDirectories (bundleDir config request)

/-! ## Parts of a build as functions of the store -/

/-- The manifest at a path. -/
def manifestIn (store : Memory) (p : Path) : Except BundleError Value := do
  Manifest.read p.text (← store.read p)

/-- The summary of a resource definition. -/
def summary (store : Memory) (file : NamedFile) : Except BundleError OwnedCrd := do
  OwnedCrd.ofDocument file.2.text (← manifestIn store file.2)

/-- The text of each file, for the path of its copy. -/
def copies (directory : Path) (store : Memory) (files : List NamedFile) : List (Path × String) :=
  files.map fun file => (destination directory file, (store.text? file.2).getD "")

/-- The files that are copied: those up to the first that has no summary, which is copied as well. -/
def reached (store : Memory) : List NamedFile → List NamedFile
  | [] => []
  | file :: files =>
      match summary store file with
      | .ok _ => file :: reached store files
      | .error _ => [file]

/-- The permission of the operator. -/
def permissionIn (config : Config) (store : Memory) : Except BundleError ClusterPermission := do
  let role ← manifestIn store ⟨config.inputs.clusterRole⟩
  ClusterPermission.ofRole config.inputs.clusterRole role config.bundle.serviceAccount

/-- The deployment of the operator with its image. -/
def deploymentIn (config : Config) (image : String) (store : Memory) :
    Except BundleError Deployment := do
  let text ← store.read ⟨config.inputs.operator⟩
  (← Deployment.ofStream config.inputs.operator text).withImage config.inputs.operator image

/-- The text of the descriptor, for which the role and the operator are read. -/
def descriptorIn (config : Config) (request : Request) (now : Instant) (template : Value)
    (crds : List OwnedCrd) (store : Memory) : Except BundleError String := do
  let permission ← permissionIn config store
  let deployment ← deploymentIn config request.image store
  descriptorText config request now template crds permission deployment

/-- What is filled into the template. -/
def descriptor (config : Config) (request : Request) (now : Instant) (crds : List OwnedCrd)
    (permission : ClusterPermission) (deployment : Deployment) : Descriptor where
  name := publishedName config.bundle.name (request.version config).text
  version := (request.version config).text
  replaces := publishedName config.bundle.name request.previousVersion
  createdAt := now
  ownedCrds := crds
  clusterPermissions := [permission]
  deployment := deployment

/-- The template filled in.  The role and the operator are read from the store `later`, all else from
the store `first`. -/
def assembled (config : Config) (request : Request) (now : Instant) (first later : Memory)
    (files : List NamedFile) : Except BundleError Value := do
  let template ← manifestIn first ⟨config.inputs.template⟩
  let crds ← files.mapM (summary first)
  let permission ← permissionIn config later
  let deployment ← deploymentIn config request.image later
  (descriptor config request now crds permission deployment).assemble config.inputs.template template

/-- The descriptor's text is the assembled template, rendered. -/
theorem descriptorText_eq (config : Config) (request : Request) (now : Instant) (template : Value)
    (crds : List OwnedCrd) (permission : ClusterPermission) (deployment : Deployment) :
    descriptorText config request now template crds permission deployment =
      ((descriptor config request now crds permission deployment).assemble config.inputs.template
        template >>= Manifest.render) := rfl

/-- What a build on a store assembles, if it comes so far. -/
def assembledIn (config : Config) (request : Request) (now : Instant) (store : Memory) :
    Except BundleError Value :=
  let files := selection config store
  assembled config request now store
    (store.writeAll (copies (bundleDir config request) store files)) files

/-- What a build that succeeds answers. -/
def outcome (config : Config) (request : Request) (files : List NamedFile) : Outcome :=
  { version := request.version config
    versionDir := bundleDir config request
    descriptorPath := descriptorPath config request
    copiedCrds := files.map (destination (bundleDir config request)) }

/-- The result of a build, and what it writes in this order. -/
def effect (config : Config) (request : Request) (now : Instant) (store : Memory) :
    Except BundleError Outcome × List (Path × String) :=
  let files := selection config store
  let written := copies (bundleDir config request) store (reached store files)
  match manifestIn store ⟨config.inputs.template⟩ with
  | .error e => (.error e, [])
  | .ok template =>
  match (prepared config request store).list ⟨config.inputs.crdDir⟩ with
  | .error e => (.error e, [])
  | .ok _ =>
  match files.mapM (summary store) with
  | .error e => (.error e, written)
  | .ok crds =>
  match descriptorIn config request now template crds (store.writeAll written) with
  | .error e => (.error e, written)
  | .ok text =>
    (.ok (outcome config request files), written ++ [(descriptorPath config request, text)])

/-! ## Reading -/

/-- The text at a path decides which manifest is there. -/
theorem manifestIn_congr {a b : Memory} {p : Path} (h : a.text? p = b.text? p) :
    manifestIn a p = manifestIn b p := by
  rw [manifestIn, manifestIn, Memory.read_congr h]

/-- A definition's summary depends on the text of its file alone. -/
theorem summary_congr {a b : Memory} {file : NamedFile} (h : a.text? file.2 = b.text? file.2) :
    summary a file = summary b file := by
  rw [summary, summary, manifestIn_congr h]

/-- The descriptor depends on the store through the cluster role and the operator's deployment alone.
-/
theorem descriptorIn_congr {config : Config} {a b : Memory}
    (hrole : a.text? ⟨config.inputs.clusterRole⟩ = b.text? ⟨config.inputs.clusterRole⟩)
    (hoperator : a.text? ⟨config.inputs.operator⟩ = b.text? ⟨config.inputs.operator⟩)
    (request : Request) (now : Instant) (template : Value) (crds : List OwnedCrd) :
    descriptorIn config request now template crds a =
      descriptorIn config request now template crds b := by
  have hdeployment : deploymentIn config request.image a = deploymentIn config request.image b := by
    rw [deploymentIn, deploymentIn, Memory.read_congr hoperator]
  rw [descriptorIn, descriptorIn, permissionIn, permissionIn, manifestIn_congr hrole, hdeployment]

theorem run_readManifest (p : Path) (store : Memory) :
    (readManifest p : StoreM Memory Value).run store = (manifestIn store p, store) := by
  rw [readManifest, StoreM.run_bind]
  have hread : (FileStore.read p : StoreM Memory String).run store = (store.read p, store) := rfl
  rw [hread, manifestIn]
  cases store.read p with
  | error e => rfl
  | ok text => exact StoreM.run_ofExcept _ store

theorem run_readPermission (config : Config) (store : Memory) :
    (readPermission config : StoreM Memory ClusterPermission).run store =
      (permissionIn config store, store) := by
  rw [readPermission, StoreM.run_bind, run_readManifest, permissionIn]
  cases manifestIn store ⟨config.inputs.clusterRole⟩ with
  | error e => rfl
  | ok role => exact StoreM.run_ofExcept _ store

theorem run_readDeployment (config : Config) (image : String) (store : Memory) :
    (readDeployment config image : StoreM Memory Deployment).run store =
      (deploymentIn config image store, store) := by
  have hread : (FileStore.read ⟨config.inputs.operator⟩ : StoreM Memory String).run store =
      (store.read ⟨config.inputs.operator⟩, store) := rfl
  rw [readDeployment, StoreM.run_bind, hread, deploymentIn]
  cases store.read ⟨config.inputs.operator⟩ with
  | error e => rfl
  | ok text => exact StoreM.run_ofExcept _ store

/-! ## Copying -/

/-- Copies have different names wherever the files have. -/
theorem destination_ne {directory p : Path} {file other : NamedFile} (h : Path.IsName file.1)
    (hname : p.fileName? = some other.1) (hne : file.1 ≠ other.1) :
    (destination directory file).components ≠ p.components := by
  intro e
  have hlast := Path.fileName?_join directory h
  rw [Path.fileName?_eq_some_iff] at hlast hname
  rw [destination] at e
  rw [e, hname] at hlast
  exact hne (Path.Component.name.inj (Option.some.inj hlast)).symm

/-- A file can be read after it was copied as it was before: either the copy is another file, or it
has the same text. -/
theorem text?_write_copy {store : Memory} {p q : Path} {text : String}
    (h : store.text? p = some text) : (store.write q text).text? p = some text := by
  rw [Memory.text?_write]
  split
  · rfl
  · exact h

/-- Copying one file and summarizing it. -/
theorem run_collectCrd {directory : Path} {file : NamedFile} {store : Memory} {text : String}
    (h : store.text? file.2 = some text) :
    (collectCrd directory file : StoreM Memory (OwnedCrd × Path)).run store =
      ((summary store file).map (·, destination directory file),
        store.write (destination directory file) text) := by
  have hcopy : (FileStore.copy file.2 (directory.join ⟨file.1⟩) : StoreM Memory Unit).run store =
      (.ok (), store.write (destination directory file) text) := by
    show store.copy file.2 (directory.join ⟨file.1⟩) = _
    rw [Memory.copy, Memory.read_eq_ok_iff.mpr h]
    rfl
  -- the original is read behind the copy, which may lie at its own place
  have hsummary : summary (store.write (destination directory file) text) file =
      summary store file := summary_congr ((text?_write_copy h).trans h.symm)
  rw [← hsummary, collectCrd, StoreM.run_bind, hcopy, summary]
  simp only
  rw [StoreM.run_bind, run_readManifest]
  cases manifestIn (store.write (destination directory file) text) file.2 with
  | error e => rfl
  | ok document =>
      simp only [StoreM.run_bind, StoreM.run_ofExcept]
      show _ = ((OwnedCrd.ofDocument file.2.text document).map _, _)
      cases OwnedCrd.ofDocument file.2.text document <;> rfl

/-- What holds of files that are to be copied: they are there, and their names differ. -/
structure AreDistinct (store : Memory) (files : List NamedFile) : Prop where
  there : ∀ file ∈ files, ∃ text, store.text? file.2 = some text
  named : ∀ file ∈ files, file.2.fileName? = some file.1
  apart : files.Pairwise fun a b => a.1 ≠ b.1

/-- Without the first file the others are still distinct. -/
theorem AreDistinct.tail {store : Memory} {file : NamedFile} {files : List NamedFile}
    (h : AreDistinct store (file :: files)) : AreDistinct store files where
  there other hother := h.there other (List.mem_cons_of_mem file hother)
  named other hother := h.named other (List.mem_cons_of_mem file hother)
  apart := (List.pairwise_cons.mp h.apart).2

/-- The selected files are there, and their names differ, in a store that is a map. -/
theorem areDistinct_selection (config : Config) {store : Memory} (hmap : store.IsMap) :
    AreDistinct store (selection config store) where
  there _ h := text?_of_mem_selection hmap h
  named _ h := (mem_selection.mp h).2.2.1
  apart := (pairwise_selection hmap).imp String.ne_of_lt

/-- Copying files one after the other: the texts of those to come are still those of the store at the
beginning. -/
theorem run_mapM_collectCrd (directory : Path) {initial store : Memory} {files : List NamedFile}
    (hfiles : AreDistinct initial files)
    (hsame : ∀ file ∈ files, store.text? file.2 = initial.text? file.2) :
    (files.mapM (collectCrd directory) : StoreM Memory (List (OwnedCrd × Path))).run store =
      ((files.mapM (summary initial)).map (·.zip (files.map (destination directory))),
        store.writeAll (copies directory initial (reached initial files))) := by
  induction files generalizing store with
  | nil => rfl
  | cons file files ih =>
      rcases hfiles.there file List.mem_cons_self with ⟨text, htext⟩
      have hnow : store.text? file.2 = some text := (hsame file List.mem_cons_self).trans htext
      have hsummary : summary store file = summary initial file :=
        summary_congr (hnow.trans htext.symm)
      rw [List.mapM_cons, StoreM.run_bind, run_collectCrd hnow, hsummary, List.mapM_cons]
      cases hfirst : summary initial file with
      | error e =>
          simp only [Except.map, reached, hfirst, copies, List.map_cons, List.map_nil, htext,
            Option.getD_some, Memory.writeAll_cons, Memory.writeAll_nil]
          rfl
      | ok crd =>
          -- the copy of this file is none of those to come, since their names differ
          have hlater : ∀ other ∈ files,
              (store.write (destination directory file) text).text? other.2 =
                initial.text? other.2 := by
            intro other hother
            have hname := hfiles.named other (List.mem_cons_of_mem file hother)
            have hne := (List.pairwise_cons.mp hfiles.apart).1 other hother
            have hisName := Path.isName_of_fileName? (hfiles.named file List.mem_cons_self)
            rw [Memory.text?_write, if_neg (destination_ne hisName hname hne)]
            exact hsame other (List.mem_cons_of_mem file hother)
          simp only [Except.map, reached, hfirst, copies, List.map_cons, htext, Option.getD_some,
            Memory.writeAll_cons]
          rw [StoreM.run_bind, ih hfiles.tail hlater]
          cases hrest : files.mapM (summary initial) <;> simp [Except.map, copies] <;> rfl

/-! ## The whole build -/

theorem files_prepared (config : Config) (request : Request) (store : Memory) :
    (prepared config request store).files = store.files := rfl

/-- Preparing the directories leaves every file's text. -/
theorem text?_prepared (config : Config) (request : Request) (store : Memory) (p : Path) :
    (prepared config request store).text? p = store.text? p := rfl

/-- Files written after the directories are prepared hold what they would hold without them. -/
theorem text?_writeAll_prepared (config : Config) (request : Request) (store : Memory)
    (writes : List (Path × String)) (p : Path) :
    ((prepared config request store).writeAll writes).text? p = (store.writeAll writes).text? p :=
  congrArg (Memory.contents? p)
    (Memory.files_writeAll_congr (files_prepared config request store) writes)

/-- A listing that succeeds yields the files of the selection. -/
theorem crdFiles_of_list {config : Config} (store : Memory) {files : List Path}
    (h : store.list ⟨config.inputs.crdDir⟩ = .ok files) :
    crdFiles config.inputs.crdSuffix files = selection config store := by
  rw [Memory.list_eq_ok h]
  rfl

/-- The last part of a build, in which the descriptor is made and written. -/
def finish (config : Config) (request : Request) (now : Instant) (template : Value)
    (collected : List (OwnedCrd × Path)) : StoreM Memory Outcome := do
  let permission ← readPermission config
  let deployment ← readDeployment config request.image
  let text ← MonadExcept.ofExcept
    (descriptorText config request now template (collected.map (·.1)) permission deployment)
  FileStore.write (descriptorPath config request) text
  return { version := request.version config
           versionDir := bundleDir config request
           descriptorPath := descriptorPath config request
           copiedCrds := collected.map (·.2) }

/-- A run prepares the directories, collects the definitions and ends in one common part. -/
theorem run_eq_finish (config : Config) (request : Request) (now : Instant) :
    (run config request now : StoreM Memory Outcome) = (do
      FileStore.makeDirectories request.outputDir
      FileStore.makeDirectories (bundleDir config request)
      let template ← readManifest ⟨config.inputs.template⟩
      let files ← FileStore.list ⟨config.inputs.crdDir⟩
      let collected ←
        (crdFiles config.inputs.crdSuffix files).mapM (collectCrd (bundleDir config request))
      finish config request now template collected) := rfl

/-- The last part of a build writes nothing but the descriptor, and that only if nothing fails. -/
theorem run_finish (config : Config) (request : Request) (now : Instant) (template : Value)
    {crds : List OwnedCrd} {files : List NamedFile} (hlength : crds.length = files.length)
    (store : Memory) :
    (finish config request now template
      (crds.zip (files.map (destination (bundleDir config request))))).run store =
      match descriptorIn config request now template crds store with
      | .error e => (.error e, store)
      | .ok text =>
          (.ok (outcome config request files),
            store.write (descriptorPath config request) text) := by
  -- there are as many summaries as copies, so that no pair is lost
  have hfst : (crds.zip (files.map (destination (bundleDir config request)))).map (·.1) = crds :=
    List.map_fst_zip (Nat.le_of_eq (by rw [List.length_map, hlength]))
  have hsnd : (crds.zip (files.map (destination (bundleDir config request)))).map (·.2) =
      files.map (destination (bundleDir config request)) :=
    List.map_snd_zip (Nat.le_of_eq (by rw [List.length_map, hlength]))
  rw [finish, hfst, hsnd, StoreM.run_bind, run_readPermission, descriptorIn]
  cases permissionIn config store with
  | error e => rfl
  | ok permission =>
      simp only
      rw [StoreM.run_bind, run_readDeployment]
      cases hdeployment : deploymentIn config request.image store with
      | error e => rfl
      | ok deployment =>
          simp only
          rw [StoreM.run_bind, StoreM.run_ofExcept]
          show _ = match descriptorText config request now template crds permission deployment with
            | .error e => _
            | .ok text => _
          cases descriptorText config request now template crds permission deployment with
          | error e => rfl
          | ok text => rfl

/-- A build does what its effect says. -/
theorem run_eq (config : Config) (request : Request) (now : Instant) {store : Memory}
    (hmap : store.IsMap) :
    (run config request now : StoreM Memory Outcome).run store =
      ((effect config request now store).1,
        (prepared config request store).writeAll (effect config request now store).2) := by
  have houtput : (FileStore.makeDirectories request.outputDir : StoreM Memory Unit).run store =
      (.ok (), store.makeDirectories request.outputDir) := rfl
  have hbundle : (FileStore.makeDirectories (bundleDir config request) : StoreM Memory Unit).run
      (store.makeDirectories request.outputDir) = (.ok (), prepared config request store) := rfl
  have htemplate : manifestIn (prepared config request store) ⟨config.inputs.template⟩ =
      manifestIn store ⟨config.inputs.template⟩ := rfl
  have hlist : (FileStore.list ⟨config.inputs.crdDir⟩ : StoreM Memory (List Path)).run
      (prepared config request store) =
        ((prepared config request store).list ⟨config.inputs.crdDir⟩,
          prepared config request store) := rfl
  rw [run_eq_finish, StoreM.run_bind, houtput, effect]
  simp only
  rw [StoreM.run_bind, hbundle]
  simp only
  rw [StoreM.run_bind, run_readManifest, htemplate]
  cases manifestIn store ⟨config.inputs.template⟩ with
  | error e => rfl
  | ok template =>
      simp only
      rw [StoreM.run_bind, hlist]
      cases hfiles : (prepared config request store).list ⟨config.inputs.crdDir⟩ with
      | error e => rfl
      | ok files =>
          have hselected : crdFiles config.inputs.crdSuffix files = selection config store :=
            crdFiles_of_list (prepared config request store) hfiles
          have hcollect := run_mapM_collectCrd (bundleDir config request)
            (areDistinct_selection config hmap)
            fun file _ => text?_prepared config request store file.2
          simp only
          rw [hselected, StoreM.run_bind, hcollect]
          cases hcrds : (selection config store).mapM (summary store) with
          | error e => rfl
          | ok crds =>
              -- the role and the deployment are read behind the copies; new directories hold no
              -- texts
              have hlater := text?_writeAll_prepared config request store
                (copies (bundleDir config request) store (reached store (selection config store)))
              simp only [Except.map]
              rw [run_finish config request now template (length_of_mapM hcrds),
                descriptorIn_congr (hlater _) (hlater _)]
              cases descriptorIn config request now template crds (store.writeAll (copies
                  (bundleDir config request) store (reached store (selection config store)))) with
              | error e => rfl
              | ok text =>
                  simp only [Memory.writeAll_append]
                  rfl

/-! ## A small build -/

/-- A configuration with short names. -/
def smallConfig : Config where
  bundle := { name := "op", serviceAccount := "sa", versionBase := "0.1" }
  inputs := { template := "t", crdDir := "d", crdSuffix := ".y", clusterRole := "r", operator := "o" }

/-- A request with short names. -/
def smallRequest : Request where
  outputDir := ⟨"out"⟩
  previousVersion := "0.1.1-a"
  commitCount := "2"
  commitHash := "b"
  image := "img"

/-- A store with two resource definitions, out of order, and all that a build reads besides. -/
def smallStore : Memory where
  files :=
    [(⟨"t"⟩, "{metadata: {}, spec: {install: {spec: {deployments: [{}]}}}}"),
     (⟨"d/b.y"⟩, "{metadata: {name: n}, spec: {names: {kind: K}, version: v}}"),
     (⟨"d/a.y"⟩, "{metadata: {name: m}, spec: {names: {kind: L}, version: 1}}"),
     (⟨"d/c"⟩, "no resource definition"),
     (⟨"r"⟩, "rules: []"),
     (⟨"o"⟩, "spec: {template: {spec: {containers: [{}]}}}")]

theorem isMap_smallStore : smallStore.IsMap := by
  unfold Memory.IsMap
  decide +kernel

end OperatorBundle.Build
