import OperatorBundle.Proofs.Build.Failure
import OperatorBundle.Proofs.Build.Inputs
import OperatorBundle.Proofs.Store.Footprint

/-!
# What a build on disk leaves behind, and how it fails

Whatever comes of a build, what is new in the tree lies in the directory of the bundle or leads to it
(`behaves_run`), and the directory is there unless the system refused something
(`isDirectory_of_run`).  A build that succeeds leaves the text of its descriptor where it says
(`exists_composed_of_run_eq_ok`).
-/

namespace OperatorBundle

/-- An error about an input is none of the configuration. -/
theorem BundleError.exitCode_ne_of_path? {e : BundleError} {p : String} (h : e.path? = some p) :
    e.exitCode ≠ 6 := by
  cases e with
  | notFound => simp [exitCode]
  | malformed => simp [exitCode]
  | missingField => simp [exitCode]
  | _ => cases h

/-- No cause in a store is one in the configuration. -/
theorem Store.Disk.Cause.exitCode_blaming (p : Path) (cause : Store.Disk.Cause) :
    (cause.blaming p).exitCode ≠ 6 := by
  cases cause <;> simp [blaming, plain, BundleError.exitCode]

namespace Build

open Calendar (Instant)
open Store (Disk)
open Store.Disk (Cause Footprint)
open Yaml (Value)

variable {α β : Type} {disk later : Disk}

/-! ## Computations -/

/-- A computation that has a footprint on every tree, and fails only for causes other than the
configuration. -/
structure Behaves (directories files : Path → Prop) (x : StoreM Disk α) : Prop where
  footprint : ∀ disk, Footprint directories files disk (x.run disk).2
  exitCode : ∀ disk e, (x.run disk).1 = .error e → e.exitCode ≠ 6

variable {directories files : Path → Prop}

/-- Two steps touch what either of them touches. -/
theorem Behaves.bind {x : StoreM Disk α} {f : α → StoreM Disk β} (hx : Behaves directories files x)
    (hf : ∀ a, Behaves directories files (f a)) : Behaves directories files (x >>= f) where
  footprint disk := by
    have hfirst := hx.footprint disk
    rw [StoreM.run_bind]
    rcases hrun : x.run disk with ⟨e | a, middle⟩
    · rw [hrun] at hfirst
      exact hfirst
    · rw [hrun] at hfirst
      exact hfirst.trans ((hf a).footprint middle)
  exitCode disk e h := by
    have hfirst := hx.exitCode disk
    rw [StoreM.run_bind] at h
    rcases hrun : x.run disk with ⟨e' | a, middle⟩
    · rw [hrun] at h hfirst
      exact hfirst e (congrArg Except.error (Except.error.inj h))
    · rw [hrun] at h
      exact (hf a).exitCode middle e h

/-- What is touched lies within anything wider. -/
theorem Behaves.mono {directories' files' : Path → Prop} {x : StoreM Disk α}
    (h : Behaves directories files x) (hdirectories : ∀ p, directories p → directories' p)
    (hfiles : ∀ p, files p → files' p) : Behaves directories' files' x where
  footprint disk := (h.footprint disk).mono hdirectories hfiles
  exitCode := h.exitCode

/-- What leaves the tree alone has no footprint. -/
theorem Observes.behaves {x : StoreM Disk α} (h : Observes x)
    (hexit : ∀ disk e, (x.run disk).1 = .error e → e.exitCode ≠ 6) :
    Behaves directories files x where
  footprint disk := by
    rw [h disk]
    exact .refl _ _ disk
  exitCode := hexit

theorem behaves_pure (a : α) : Behaves directories files (pure a) :=
  (observes_pure a).behaves fun _ _ h => nomatch h

/-- An outcome that is given touches nothing. -/
theorem behaves_ofExcept {r : Except BundleError α} (h : ∀ e, r = .error e → e.exitCode ≠ 6) :
    Behaves directories files (MonadExcept.ofExcept r) := by
  refine (observes_ofExcept r).behaves fun disk e he => ?_
  rw [StoreM.run_ofExcept] at he
  exact h e he

/-- An outcome that names its source touches nothing. -/
theorem behaves_of_names (source : String) {r : Except BundleError α} (h : Names source r) :
    Behaves directories files (MonadExcept.ofExcept r) :=
  behaves_ofExcept fun e he => BundleError.exitCode_ne_of_path? (h e he)

/-- What the system refuses is told as what it is. -/
theorem exitCode_of_mapError {p : Path} {r : Except Cause α} {e : BundleError}
    (h : r.mapError (Cause.blaming p) = .error e) : e.exitCode ≠ 6 := by
  cases r with
  | error cause =>
      rw [← Except.error.inj h]
      exact cause.exitCode_blaming p
  | ok a => cases h

/-- Reading touches nothing. -/
theorem behaves_read (p : Path) :
    Behaves directories files (FileStore.read p : StoreM Disk String) :=
  (observes_read p).behaves fun _ _ h => exitCode_of_mapError h

theorem behaves_list (p : Path) :
    Behaves directories files (FileStore.list p : StoreM Disk (List Path)) :=
  (observes_list p).behaves fun _ _ h => exitCode_of_mapError h

/-- An operation that changes the tree, and its failures. -/
theorem exitCode_of_settle {report : Cause → BundleError} {result : Except Cause Disk}
    (hreport : ∀ cause, (report cause).exitCode ≠ 6) {e : BundleError}
    (h : (disk.settle report result).1 = .error e) : e.exitCode ≠ 6 := by
  cases result with
  | error cause =>
      rw [← Except.error.inj h]
      exact hreport cause
  | ok later => cases h

/-- Writing touches the file that is written. -/
theorem behaves_write (p : Path) (text : String) :
    Behaves (fun _ => False) (· = p) (FileStore.write p text : StoreM Disk Unit) where
  footprint _ := Store.Disk.footprint_settle fun _ h => Store.Disk.footprint_write h
  exitCode _ _ h := exitCode_of_settle (fun cause => by simp [Cause.plain, BundleError.exitCode]) h

/-- Copying touches the target only. -/
theorem behaves_copy (source target : Path) :
    Behaves (fun _ => False) (· = target) (FileStore.copy source target : StoreM Disk Unit) where
  footprint _ := Store.Disk.footprint_settle fun _ h => Store.Disk.footprint_copy h
  exitCode _ _ h := exitCode_of_settle (fun cause => cause.exitCode_blaming source) h

/-- Making directories in a build is making them on the disk. -/
theorem run_makeDirectories (p : Path) (disk : Disk) :
    (FileStore.makeDirectories p : StoreM Disk Unit).run disk =
      ((disk.makeDirectories p).1.mapError Cause.plain, (disk.makeDirectories p).2) := rfl

/-- Directories that cannot be made are an error of the store. -/
theorem exitCode_of_makeDirectories {p : Path} {e : BundleError}
    (h : ((FileStore.makeDirectories p : StoreM Disk Unit).run disk).1 = .error e) :
    e.exitCode = 2 := by
  rw [run_makeDirectories] at h
  cases hmade : (disk.makeDirectories p).1 with
  | error cause =>
      rw [hmade] at h
      rw [← Except.error.inj h]
      rfl
  | ok _ =>
      rw [hmade] at h
      cases h

/-- Making directories touches the directory and those around it. -/
theorem behaves_makeDirectories (p : Path) :
    Behaves (· ∈ p.ancestors) (fun _ => False)
      (FileStore.makeDirectories p : StoreM Disk Unit) where
  footprint disk := Store.Disk.footprint_ensureAll p.ancestors disk
  exitCode disk e h := by
    rw [exitCode_of_makeDirectories h]
    decide

/-- What is done for each of several things touches what is touched for one of them. -/
theorem behaves_mapM {f : α → StoreM Disk β} {as : List α}
    (h : ∀ a ∈ as, Behaves directories files (f a)) : Behaves directories files (as.mapM f) := by
  induction as with
  | nil => exact behaves_pure []
  | cons a as ih =>
      rw [List.mapM_cons]
      refine (h a List.mem_cons_self).bind fun b => ?_
      exact (ih fun a' ha' => h a' (List.mem_cons_of_mem a ha')).bind fun bs => behaves_pure _

/-! ## The parts of a build -/

/-- Reading a manifest touches nothing. -/
theorem behaves_readManifest (p : Path) :
    Behaves directories files (readManifest p : StoreM Disk Value) :=
  (behaves_read p).bind fun text => behaves_of_names _ (Manifest.names_read p.text text)

/-- A failure about a definition names its source. -/
theorem OwnedCrd.names_ofDocument (source : String) (document : Value) :
    Names source (OwnedCrd.ofDocument source document) := by
  refine (Manifest.names_demand source _ _).bind fun name => ?_
  refine (Manifest.names_demand source _ _).bind fun kind => ?_
  exact (OwnedCrd.names_version? source document).bind fun version => names_ok source _

/-- Collecting a definition touches its copy only. -/
theorem behaves_collectCrd (directory : Path) (file : NamedFile) :
    Behaves (fun _ => False) (· = destination directory file)
      (collectCrd directory file : StoreM Disk (OwnedCrd × Path)) := by
  refine (behaves_copy file.2 _).bind fun _ => ?_
  refine (behaves_readManifest file.2).bind fun document => ?_
  exact (behaves_of_names _ (OwnedCrd.names_ofDocument _ document)).bind fun crd => behaves_pure _

/-- Reading the permissions touches nothing. -/
theorem behaves_readPermission (config : Config) :
    Behaves directories files (readPermission config : StoreM Disk ClusterPermission) := by
  refine (behaves_readManifest _).bind fun role => behaves_of_names config.inputs.clusterRole ?_
  exact (Manifest.names_demand _ _ _).bind fun rules => names_ok _ _

/-- Reading the deployment touches nothing. -/
theorem behaves_readDeployment (config : Config) (image : String) :
    Behaves directories files (readDeployment config image : StoreM Disk Deployment) := by
  refine (behaves_read _).bind fun text => behaves_of_names config.inputs.operator ?_
  refine Names.bind ?_ fun deployment => names_withImage deployment _ image
  refine (Manifest.names_readFirst _ text).bind fun first => ?_
  refine (Manifest.names_demand _ _ first).bind fun document => ?_
  exact (Manifest.names_demand _ _ _).bind fun spec => names_ok _ _

/-- A descriptor that is not there has no input that is to blame, or is blamed on the template. -/
theorem exitCode_of_descriptorText {config : Config} {request : Request} {now : Instant}
    {template : Value} {crds : List OwnedCrd} {permission : ClusterPermission}
    {deployment : Deployment} {e : BundleError}
    (h : descriptorText config request now template crds permission deployment = .error e) :
    e.exitCode ≠ 6 := by
  rcases bind_eq_error_iff.mp h with h | ⟨csv, _, h⟩
  · exact BundleError.exitCode_ne_of_path? (Descriptor.names_assemble _ _ _ e h)
  · unfold Manifest.render at h
    split at h
    · cases h
    · rw [← Except.error.inj h]
      simp [BundleError.exitCode]

/-! ## The whole build -/

/-- The directories that a build makes where they are missing. -/
def IsMade (config : Config) (request : Request) (p : Path) : Prop :=
  p ∈ request.outputDir.ancestors ∨ p ∈ (bundleDir config request).ancestors

/-- The files that a build writes: in the directory of the bundle a copy under its own name, and the
descriptor. -/
def IsPut (config : Config) (request : Request) (p : Path) : Prop :=
  (∃ name, Path.IsName name ∧ p = (bundleDir config request).join ⟨name⟩) ∨
    p = descriptorPath config request

/-- Makes the copies and the text of the descriptor.  The directories are there. -/
def gathered (config : Config) (request : Request) (now : Instant) :
    StoreM Disk (String × List Path) := do
  let template ← readManifest ⟨config.inputs.template⟩
  let files ← FileStore.list ⟨config.inputs.crdDir⟩
  let collected ←
    (crdFiles config.inputs.crdSuffix files).mapM (collectCrd (bundleDir config request))
  let permission ← readPermission config
  let deployment ← readDeployment config request.image
  let text ← MonadExcept.ofExcept
    (descriptorText config request now template (collected.map (·.1)) permission deployment)
  return (text, collected.map (·.2))

/-- All that a build does before it puts the descriptor into its place. -/
def composed (config : Config) (request : Request) (now : Instant) :
    StoreM Disk (String × List Path) := do
  FileStore.makeDirectories request.outputDir
  FileStore.makeDirectories (bundleDir config request)
  gathered config request now

/-- What was built, with these copies. -/
def outcomeWith (config : Config) (request : Request) (copies : List Path) : Outcome where
  version := request.version config
  versionDir := bundleDir config request
  descriptorPath := descriptorPath config request
  copiedCrds := copies

/-- Puts the descriptor into its place. -/
def put (config : Config) (request : Request) (made : String × List Path) : StoreM Disk Outcome := do
  FileStore.write (descriptorPath config request) made.1
  return outcomeWith config request made.2

/-- A build puts what it has composed. -/
theorem run_eq_composed (config : Config) (request : Request) (now : Instant) :
    (run config request now : StoreM Disk Outcome) =
      composed config request now >>= put config request := by
  unfold run composed gathered put outcomeWith descriptorPath bundleDir
  simp only [bind_assoc, pure_bind]

/-- A build makes its directories first. -/
theorem run_eq_completed (config : Config) (request : Request) (now : Instant) :
    (run config request now : StoreM Disk Outcome) = (do
      FileStore.makeDirectories request.outputDir
      FileStore.makeDirectories (bundleDir config request)
      gathered config request now >>= put config request) := by
  rw [run_eq_composed, composed]
  simp only [bind_assoc]

/-- Gathering the inputs touches what a build makes. -/
theorem behaves_gathered (config : Config) (request : Request) (now : Instant) :
    Behaves (IsMade config request) (IsPut config request) (gathered config request now) := by
  refine (behaves_readManifest _).bind fun template => ?_
  refine (behaves_list _).bind fun files => ?_
  refine Behaves.bind (behaves_mapM fun file hfile => ?_) fun collected => ?_
  · have hname : Path.IsName file.1 := Path.isName_of_fileName? (mem_crdFiles.mp hfile).2.1
    exact (behaves_collectCrd _ file).mono (fun _ h => h.elim) fun p hp =>
      .inl ⟨file.1, hname, hp⟩
  refine (behaves_readPermission config).bind fun permission => ?_
  refine (behaves_readDeployment config _).bind fun deployment => ?_
  exact (behaves_ofExcept fun e he => exitCode_of_descriptorText he).bind fun text => behaves_pure _

/-- A build touches only what it makes and puts. -/
theorem behaves_completed (config : Config) (request : Request) (now : Instant) :
    Behaves (IsMade config request) (IsPut config request)
      (gathered config request now >>= put config request) := by
  refine (behaves_gathered config request now).bind fun made => ?_
  exact ((behaves_write _ made.1).mono (fun _ h => h.elim) fun p hp => .inr hp).bind fun _ =>
    behaves_pure _

/-- All that is new after a build is a directory that it makes or a file that it puts. -/
theorem behaves_run (config : Config) (request : Request) (now : Instant) :
    Behaves (IsMade config request) (IsPut config request)
      (run config request now : StoreM Disk Outcome) := by
  rw [run_eq_completed]
  refine ((behaves_makeDirectories _).mono (fun p hp => .inl hp) fun _ h => h.elim).bind fun _ => ?_
  refine ((behaves_makeDirectories _).mono (fun p hp => .inr hp) fun _ h => h.elim).bind fun _ => ?_
  exact behaves_completed config request now

/-! ## The directory of the bundle -/

/-- A directory that has been made is there. -/
theorem isDirectory_of_run_makeDirectories {p : Path}
    (h : (FileStore.makeDirectories p : StoreM Disk Unit).run disk = (.ok (), later)) :
    later.isDirectory p = true := by
  rw [run_makeDirectories] at h
  rcases hmade : disk.makeDirectories p with ⟨_ | _, after⟩
  · rw [hmade] at h
    cases h
  · rw [hmade] at h
    cases h
    exact Store.Disk.isDirectory_of_makeDirectories hmade

/-- Unless the system refuses something the directory of the bundle is there when a build ends. -/
theorem isDirectory_of_run {config : Config} {request : Request} {now : Instant}
    {result : Except BundleError Outcome}
    (hrun : (run config request now : StoreM Disk Outcome).run disk = (result, later))
    (hexit : ∀ e, result = .error e → e.exitCode ≠ 2) :
    later.isDirectory (bundleDir config request) = true := by
  rw [run_eq_completed, StoreM.run_bind] at hrun
  -- the directories are made first, and are refused by the system only
  rcases hfirst : (FileStore.makeDirectories request.outputDir : StoreM Disk Unit).run disk with
    ⟨e | _, first⟩
  · rw [hfirst] at hrun
    cases hrun
    exact absurd (exitCode_of_makeDirectories (congrArg Prod.fst hfirst)) (hexit e rfl)
  rw [hfirst] at hrun
  simp only at hrun
  rw [StoreM.run_bind] at hrun
  rcases hsecond : (FileStore.makeDirectories (bundleDir config request) : StoreM Disk Unit).run first
    with ⟨e | _, second⟩
  · rw [hsecond] at hrun
    cases hrun
    exact absurd (exitCode_of_makeDirectories (congrArg Prod.fst hsecond)) (hexit e rfl)
  rw [hsecond] at hrun
  -- no later step takes a directory away
  have hgrows := ((behaves_completed config request now).footprint second).grows
  have hlater : ((gathered config request now >>= put config request).run second).2 = later :=
    congrArg Prod.snd hrun
  rw [hlater] at hgrows
  exact hgrows.isDirectory (isDirectory_of_run_makeDirectories hsecond)

/-! ## The descriptor -/

/-- A text is the written form of a descriptor of the version that is built, which was assembled from
a template. -/
def IsRendered (config : Config) (request : Request) (now : Instant) (text : String) : Prop :=
  ∃ (d : Descriptor) (template csv : Value),
    d.name = publishedName config.bundle.name (request.version config).text ∧
    d.version = (request.version config).text ∧
    d.replaces = publishedName config.bundle.name request.previousVersion ∧ d.createdAt = now ∧
    d.assemble config.inputs.template template = .ok csv ∧ Manifest.render csv = .ok text

/-- What is composed is the rendered descriptor. -/
theorem isRendered_of_run_composed {config : Config} {request : Request} {now : Instant}
    {text : String} {copies : List Path}
    (h : (composed config request now).run disk = (.ok (text, copies), later)) :
    IsRendered config request now text := by
  unfold composed gathered at h
  obtain ⟨_, _, _, h⟩ := StoreM.exists_of_run_bind_eq_ok h
  obtain ⟨_, _, _, h⟩ := StoreM.exists_of_run_bind_eq_ok h
  obtain ⟨template, _, _, h⟩ := StoreM.exists_of_run_bind_eq_ok h
  obtain ⟨files, _, _, h⟩ := StoreM.exists_of_run_bind_eq_ok h
  obtain ⟨collected, _, _, h⟩ := StoreM.exists_of_run_bind_eq_ok h
  obtain ⟨permission, _, _, h⟩ := StoreM.exists_of_run_bind_eq_ok h
  obtain ⟨deployment, _, _, h⟩ := StoreM.exists_of_run_bind_eq_ok h
  obtain ⟨text', _, htext, h⟩ := StoreM.exists_of_run_bind_eq_ok h
  cases h
  rw [StoreM.run_ofExcept] at htext
  obtain ⟨csv, hcsv, hrender⟩ := bind_eq_ok_iff.mp (congrArg Prod.fst htext)
  exact ⟨_, template, csv, rfl, rfl, rfl, rfl, hcsv, hrender⟩

/-- A build that succeeds has put the text that it composed where it says. -/
theorem exists_composed_of_run_eq_ok {config : Config} {request : Request} {now : Instant}
    {outcome : Outcome}
    (h : (run config request now : StoreM Disk Outcome).run disk = (.ok outcome, later)) :
    ∃ text copies before, (composed config request now).run disk = (.ok (text, copies), before) ∧
      outcome = outcomeWith config request copies ∧
      later.read (descriptorPath config request) = .ok text := by
  rw [run_eq_composed] at h
  obtain ⟨⟨text, copies⟩, before, hcomposed, h⟩ := StoreM.exists_of_run_bind_eq_ok h
  obtain ⟨_, after, hwrite, h⟩ := StoreM.exists_of_run_bind_eq_ok h
  have hsettle : (FileStore.write (descriptorPath config request) text : StoreM Disk Unit).run
      before = before.settle Cause.plain (before.write (descriptorPath config request) text.toUTF8)
    := rfl
  rw [hsettle] at hwrite
  refine ⟨text, copies, before, hcomposed, ?_, ?_⟩
  · exact (Except.ok.inj (congrArg Prod.fst h)).symm
  · rw [← show after = later from congrArg Prod.snd h]
    cases hresult : before.write (descriptorPath config request) text.toUTF8 with
    | error cause =>
        rw [hresult] at hwrite
        cases hwrite
    | ok written =>
        rw [hresult] at hwrite
        cases hwrite
        exact Store.Disk.read_of_write hresult

end Build

end OperatorBundle
