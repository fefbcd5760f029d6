import OperatorBundle.Proofs.Build.Effect
import OperatorBundle.Proofs.Store.Disk

/-!
# Which files a build on disk changes

A build is told where its inputs lie and where its bundle goes, and nobody makes sure that these are
different places.  The files that it changes are those to which its copies go and, if it succeeds,
the one that becomes the descriptor (`find_run_of_not_written`).  An input in such a place is
overwritten like any other file (`role_overwritten`); all others keep their bytes.
-/

namespace OperatorBundle

namespace Build

open Calendar (Instant)
open Store (Disk)
open Store.Disk (Changes Place)
open Yaml (Value)

variable {α β : Type} {disk : Disk} {p : Path}

/-! ## Computations -/

/-- What a computation may write, told by what comes of it. -/
def Writes (paths : Except BundleError α → Path → Prop) (x : StoreM Disk α) (disk : Disk) : Prop :=
  Changes (paths (x.run disk).1) disk (x.run disk).2

/-- What writes only these paths writes only those of a larger set. -/
theorem Writes.mono {paths more : Except BundleError α → Path → Prop} {x : StoreM Disk α}
    (h : Writes paths x disk) (hmore : ∀ r p, paths r p → more r p) : Writes more x disk :=
  Changes.mono h fun p hp => hmore _ p hp

/-- The first part of a computation writes some paths; what follows it has the result of the
whole. -/
theorem Writes.bind {always : Path → Prop} {paths : Except BundleError β → Path → Prop}
    {x : StoreM Disk α} {f : α → StoreM Disk β} (hx : Writes (fun _ => always) x disk)
    (hmore : ∀ r p, always p → paths r p)
    (hf : ∀ a middle, x.run disk = (.ok a, middle) → Writes paths (f a) middle) :
    Writes paths (x >>= f) disk := by
  have hfirst : ∀ r, Changes (paths r) disk (x.run disk).2 := fun r =>
    Changes.mono hx fun p hp => hmore r p hp
  unfold Writes
  rw [StoreM.run_bind]
  rcases hrun : x.run disk with ⟨e | a, middle⟩
  · rw [hrun] at hfirst
    exact hfirst (.error e)
  · rw [hrun] at hfirst
    exact (hfirst _).trans (hf a middle hrun)

/-- What follows a computation that writes nothing. -/
theorem Writes.after {paths : Except BundleError β → Path → Prop} {x : StoreM Disk α}
    {f : α → StoreM Disk β} (hx : Writes (fun _ _ => False) x disk)
    (hf : ∀ a middle, x.run disk = (.ok a, middle) → Writes paths (f a) middle) :
    Writes paths (x >>= f) disk :=
  hx.bind (fun _ _ h => h.elim) hf

/-- A computation that leaves every store as it is. -/
def Observes (x : StoreM Disk α) : Prop := ∀ disk, (x.run disk).2 = disk

/-- What only observes the store writes nothing. -/
theorem Observes.writes {x : StoreM Disk α} (h : Observes x)
    (paths : Except BundleError α → Path → Prop) (disk : Disk) : Writes paths x disk := by
  rw [Writes, h disk]
  exact .refl _ disk

/-- Observations in a row are an observation. -/
theorem Observes.bind {x : StoreM Disk α} {f : α → StoreM Disk β} (hx : Observes x)
    (hf : ∀ a, Observes (f a)) : Observes (x >>= f) := by
  intro disk
  have hdisk := hx disk
  rw [StoreM.run_bind]
  rcases hrun : x.run disk with ⟨_ | a, middle⟩
  · rw [hrun] at hdisk
    exact hdisk
  · rw [hrun] at hdisk
    exact (hf a middle).trans hdisk

theorem observes_pure (a : α) : Observes (pure a : StoreM Disk α) := fun _ => rfl

theorem observes_ofExcept (r : Except BundleError α) :
    Observes (MonadExcept.ofExcept r : StoreM Disk α) := by
  intro disk
  rw [StoreM.run_ofExcept]

theorem observes_read (p : Path) : Observes (FileStore.read p : StoreM Disk String) := fun _ => rfl

theorem observes_list (p : Path) : Observes (FileStore.list p : StoreM Disk (List Path)) :=
  fun _ => rfl

/-- Reading a manifest changes nothing. -/
theorem observes_readManifest (p : Path) : Observes (readManifest p : StoreM Disk Value) :=
  (observes_read p).bind fun _ => observes_ofExcept _

/-- Reading the cluster role changes nothing. -/
theorem observes_readPermission (config : Config) :
    Observes (readPermission config : StoreM Disk ClusterPermission) :=
  (observes_readManifest _).bind fun _ => observes_ofExcept _

/-- Reading the operator's deployment changes nothing. -/
theorem observes_readDeployment (config : Config) (image : String) :
    Observes (readDeployment config image : StoreM Disk Deployment) :=
  (observes_read _).bind fun _ => observes_ofExcept _

/-- Making directories writes no file. -/
theorem writes_makeDirectories (paths : Except BundleError Unit → Path → Prop) (p : Path)
    (disk : Disk) : Writes paths (FileStore.makeDirectories p) disk :=
  (Store.Disk.addsDirectories_makeDirectories disk p).changes

/-- A copy writes its target alone. -/
theorem writes_copy (source target : Path) (disk : Disk) :
    Writes (fun _ => (· = target)) (FileStore.copy source target) disk :=
  Store.Disk.changes_settle fun _ h => Store.Disk.changes_copy h

/-- A text that is written last is there if all succeeds, and else nothing is changed. -/
theorem writes_write_pure (p : Path) (text : String) (a : α) (disk : Disk) :
    Writes (fun r q => r.isOk = true ∧ q = p)
      (FileStore.write p text >>= fun _ => pure a : StoreM Disk α) disk := by
  have hrun : (FileStore.write p text : StoreM Disk Unit).run disk =
      disk.settle Store.Disk.Cause.plain (disk.write p text.toUTF8) := rfl
  rw [Writes, StoreM.run_bind, hrun]
  cases hwrite : disk.write p text.toUTF8 with
  | error cause => exact .refl _ disk
  | ok later => exact (Store.Disk.changes_write hwrite).mono fun q hq => ⟨rfl, hq⟩

/-! ## Copying -/

/-- The resource definitions that are begun to be copied: the first that fails is the last. -/
def attempted (directory : Path) : List NamedFile → Disk → List NamedFile
  | [], _ => []
  | file :: files, disk =>
      file ::
        match (collectCrd directory file : StoreM Disk (OwnedCrd × Path)).run disk with
        | (.ok _, later) => attempted directory files later
        | (.error _, _) => []

/-- Collecting a definition writes its copy alone. -/
theorem writes_collectCrd (directory : Path) (file : NamedFile) (disk : Disk) :
    Writes (fun _ => (· = destination directory file))
      (collectCrd directory file : StoreM Disk (OwnedCrd × Path)) disk := by
  refine (writes_copy _ _ disk).bind (fun _ _ hp => hp) fun _ copied _ => ?_
  refine Observes.writes ?_ _ copied
  exact (observes_readManifest _).bind fun _ => (observes_ofExcept _).bind fun _ => observes_pure _

/-- Copying writes where the copies go of all files that are begun. -/
theorem writes_mapM_collectCrd (directory : Path) (files : List NamedFile) (disk : Disk) :
    Writes (fun _ p => ∃ file ∈ attempted directory files disk, p = destination directory file)
      (files.mapM (collectCrd directory) : StoreM Disk (List (OwnedCrd × Path))) disk := by
  induction files generalizing disk with
  | nil => exact (observes_pure _).writes _ disk
  | cons file files ih =>
      rw [List.mapM_cons]
      refine (writes_collectCrd directory file disk).bind (fun _ p hp => ?_) fun crd middle hrun => ?_
      · exact ⟨file, List.mem_cons_self, hp⟩
      · refine ((ih middle).bind (fun _ p hp => ?_) fun _ later _ => (observes_pure _).writes _ later)
        rcases hp with ⟨other, hother, hp⟩
        refine ⟨other, ?_, hp⟩
        rw [attempted, hrun]
        exact List.mem_cons_of_mem file hother

/-! ## The whole build -/

/-- What a build does before it copies, with the resource definitions that it finds. -/
def prepare (config : Config) (request : Request) : StoreM Disk (List NamedFile) := do
  FileStore.makeDirectories request.outputDir
  FileStore.makeDirectories (bundleDir config request)
  let _template ← (readManifest ⟨config.inputs.template⟩ : StoreM Disk Value)
  return crdFiles config.inputs.crdSuffix (← FileStore.list ⟨config.inputs.crdDir⟩)

/-- The resource definitions that a build begins to copy. -/
def begun (config : Config) (request : Request) (disk : Disk) : List NamedFile :=
  match (prepare config request).run disk with
  | (.ok files, ready) => attempted (bundleDir config request) files ready
  | (.error _, _) => []

/-- A build writes its copies, and if it succeeds the descriptor. -/
theorem writes_run (config : Config) (request : Request) (now : Instant) (disk : Disk) :
    Writes (fun r p =>
        (∃ file ∈ begun config request disk, p = destination (bundleDir config request) file) ∨
          r.isOk = true ∧ p = descriptorPath config request)
      (run config request now : StoreM Disk Outcome) disk := by
  refine (writes_makeDirectories _ _ disk).after fun _ first hfirst => ?_
  refine (writes_makeDirectories _ _ first).after fun _ second hsecond => ?_
  refine ((observes_readManifest _).writes _ second).after fun template third hthird => ?_
  refine ((observes_list _).writes _ third).after fun files ready hready => ?_
  -- these four steps are those of `prepare`, whose listing says what is begun
  have hprepare : (prepare config request).run disk =
      (.ok (crdFiles config.inputs.crdSuffix files), ready) := by
    rw [prepare, StoreM.run_bind, hfirst]
    simp only
    rw [StoreM.run_bind, bundleDir, hsecond]
    simp only
    rw [StoreM.run_bind, hthird]
    simp only
    rw [StoreM.run_bind, hready]
    rfl
  have hcopies := writes_mapM_collectCrd (bundleDir config request)
    (crdFiles config.inputs.crdSuffix files) ready
  refine hcopies.bind (fun _ p hp => Or.inl ?_) fun collected copied _ => ?_
  · rw [begun, hprepare]
    exact hp
  refine ((observes_readPermission _).writes _ copied).after fun permission fourth _ => ?_
  refine ((observes_readDeployment _ _).writes _ fourth).after fun deployment fifth _ => ?_
  refine ((observes_ofExcept _).writes _ fifth).after fun text last _ => ?_
  exact (writes_write_pure (descriptorPath config request) text _ last).mono fun _ p hp => Or.inr hp

/-! ## The result -/

/-- After a build on disk, whether it succeeds or fails, every path leads to the file to which it led
before, and this has the bytes that it had, unless it lies where a copy that was begun goes, or where
the descriptor goes of a build that succeeds. -/
theorem find_run_of_not_written (config : Config) (request : Request) (now : Instant) {disk : Disk}
    {place : Place} {bytes : ByteArray} (hfile : disk.find p = .ok (place, .file bytes)) :
    let ran := (run config request now : StoreM Disk Outcome).run disk
    (∀ file ∈ begun config request disk,
      ran.2.place? (destination (bundleDir config request) file) ≠ some place) →
    (ran.1.isOk = true → ran.2.place? (descriptorPath config request) ≠ some place) →
    ran.2.find p = .ok (place, .file bytes) := by
  intro ran hcopies hdescriptor
  have hrun : Changes _ disk ran.2 := writes_run config request now disk
  rcases Store.Disk.find_eq_file_iff.mp hfile with ⟨hplace, hentry⟩
  refine Store.Disk.find_eq_file_iff.mpr ⟨hrun.grows.place? hplace, ?_⟩
  rcases hrun.file place bytes hentry with hsame | ⟨q, ⟨file, hbegun, rfl⟩ | ⟨hok, rfl⟩, hleads⟩
  · exact hsame
  · exact absurd hleads (hcopies file hbegun)
  · exact absurd hleads (hdescriptor hok)

/-- A tree with a resource definition and all that a build reads besides. -/
def smallDisk : Disk where
  entries :=
    [(["t"], .file "{metadata: {}, spec: {install: {spec: {deployments: [{}]}}}}".toUTF8),
     (["d"], .directory),
     (["a.y", "d"], .file "{metadata: {name: m}, spec: {names: {kind: L}, version: 1}}".toUTF8),
     (["r"], .file "rules: []".toUTF8),
     (["o"], .file "spec: {template: {spec: {containers: [{}]}}}".toUTF8)]

/-- The small build succeeds, and its template keeps its bytes. -/
theorem find_template_small :
    let bytes := "{metadata: {}, spec: {install: {spec: {deployments: [{}]}}}}".toUTF8
    let ran := (run smallConfig smallRequest ⟨0, 0⟩ : StoreM Disk Outcome).run smallDisk
    smallDisk.find ⟨"t"⟩ = .ok (["t"], .file bytes) ∧
      (∀ file ∈ begun smallConfig smallRequest smallDisk,
        ran.2.place? (destination (bundleDir smallConfig smallRequest) file) ≠ some ["t"]) ∧
      (ran.1.isOk = true ∧ ran.2.place? (descriptorPath smallConfig smallRequest) ≠ some ["t"]) ∧
      ran.2.find ⟨"t"⟩ = .ok (["t"], .file bytes) := by
  intro bytes ran
  have hfile : smallDisk.find ⟨"t"⟩ = .ok (["t"], .file bytes) := by
    rw [Store.Disk.find_eq_file_iff]
    decide +kernel
  have hapart : (∀ file ∈ begun smallConfig smallRequest smallDisk,
        ran.2.place? (destination (bundleDir smallConfig smallRequest) file) ≠ some ["t"]) ∧
      ran.1.isOk = true ∧
      ran.2.place? (descriptorPath smallConfig smallRequest) ≠ some ["t"] := by
    decide +kernel
  exact ⟨hfile, hapart.1, hapart.2, find_run_of_not_written smallConfig smallRequest ⟨0, 0⟩ hfile
    hapart.1 fun _ => hapart.2.2⟩

/-- An input that lies where a copy goes is overwritten: here a resource definition with rules takes
the place of the role. -/
theorem role_overwritten :
    let p : Path := ⟨"out/0.1.2-b/a.y"⟩
    let place : Place := ["a.y", "0.1.2-b", "out"]
    let bytes := "rules: []".toUTF8
    let config : Config :=
      { smallConfig with inputs := { smallConfig.inputs with clusterRole := p.text } }
    let disk : Disk :=
      { entries :=
          [(["t"], .file "{metadata: {}, spec: {install: {spec: {deployments: [{}]}}}}".toUTF8),
           (["d"], .directory),
           (["a.y", "d"],
             .file "{metadata: {name: m}, spec: {names: {kind: L}, version: 1}, rules: []}".toUTF8),
           (["o"], .file "spec: {template: {spec: {containers: [{}]}}}".toUTF8),
           (["out"], .directory), (["0.1.2-b", "out"], .directory), (place, .file bytes)] }
    let ran := (run config smallRequest ⟨0, 0⟩ : StoreM Disk Outcome).run disk
    disk.find p = .ok (place, .file bytes) ∧ ran.2.find p ≠ .ok (place, .file bytes) := by
  intro p place bytes config disk ran
  have hfile : disk.find p = .ok (place, .file bytes) := by
    rw [Store.Disk.find_eq_file_iff]
    decide +kernel
  have hran : Disk.entry? ran.2 place ≠ some (.file bytes) := by
    decide +kernel
  exact ⟨hfile, fun h => hran (Store.Disk.find_eq_file_iff.mp h).2⟩

end Build

end OperatorBundle
