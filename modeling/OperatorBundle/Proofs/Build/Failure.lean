import OperatorBundle.Proofs.Build.Success
import OperatorBundle.Proofs.Manifest.Condition

/-!
# What a build that fails leaves behind

A build checks one thing after the other.  `steps` lists these checks in their order, each with the
input it is about and with the number of resource definitions that have been copied by then.
`isStopped_of_run_eq_error` says that a failure is that of the first check that fails, and that the
store holds the copies made by then and is otherwise as it was, however many inputs are broken.
-/

namespace OperatorBundle.Build

open Calendar (Instant)
open Store (Memory)
open Yaml (Value)

/-! ## The steps -/

/-- What goes wrong in a computation, if anything does. -/
def failure? {α : Type} : Except BundleError α → Option BundleError
  | .ok _ => none
  | .error e => some e

/-- One of the checks that a build makes. -/
structure Step where
  /-- The input that it is about. -/
  source : String
  /-- How many resource definitions have been copied by then. -/
  copied : Nat
  failure : Option BundleError

/-- Reading and parsing a manifest of one document. -/
def manifestSteps (copied : Nat) (store : Memory) (source : String) : List Step :=
  [⟨source, copied, failure? (store.read ⟨source⟩)⟩,
   ⟨source, copied, failure? (manifestIn store ⟨source⟩)⟩]

/-- The checks of one resource definition. -/
def definitionSteps (copied : Nat) (store : Memory) (file : NamedFile) : List Step :=
  let source := file.2.text
  let document := manifestIn store file.2
  [⟨source, copied, failure? document⟩,
   ⟨source, copied, failure? do Manifest.requireScalar (← document) "metadata.name" source⟩,
   ⟨source, copied, failure? do Manifest.requireScalar (← document) "spec.names.kind" source⟩,
   ⟨source, copied, failure? do OwnedCrd.version? source (← document)⟩]

/-- The checks of all resource definitions.  Each is copied before it is checked. -/
def definitionsSteps (copied : Nat) (store : Memory) : List NamedFile → List Step
  | [] => []
  | file :: files =>
      definitionSteps (copied + 1) store file ++ definitionsSteps (copied + 1) store files

/-- The checks of the role. -/
def roleSteps (copied : Nat) (store : Memory) (source : String) : List Step :=
  manifestSteps copied store source ++
    [⟨source, copied, failure? do
        Manifest.requireSequence (← manifestIn store ⟨source⟩) "rules" source⟩]

/-- The first document of the operator's manifest, if there is one. -/
def firstIn (store : Memory) (source : String) : Except BundleError (Option Value) := do
  Manifest.readFirst source (← store.read ⟨source⟩)

/-- The document that holds the operator's deployment. -/
def documentIn (store : Memory) (source : String) : Except BundleError Value := do
  Manifest.demand source "<first document>" (← firstIn store source)

/-- The specification of the operator's deployment. -/
def specIn (store : Memory) (source : String) : Except BundleError Value := do
  Manifest.require (← documentIn store source) "spec" source

/-- The checks of the operator. -/
def operatorSteps (copied : Nat) (store : Memory) (source image : String) : List Step :=
  [⟨source, copied, failure? (store.read ⟨source⟩)⟩,
   ⟨source, copied, failure? (firstIn store source)⟩,
   ⟨source, copied, failure? (documentIn store source)⟩,
   ⟨source, copied, failure? (specIn store source)⟩,
   ⟨source, copied, failure? do (Deployment.mk (← specIn store source)).withImage source image⟩]

/-- The checks that follow when all resource definitions have been copied. -/
def laterSteps (config : Config) (request : Request) (now : Instant) (store later : Memory)
    (files : List NamedFile) : List Step :=
  let all := files.length
  let value := assembled config request now store later files
  roleSteps all later config.inputs.clusterRole ++
    operatorSteps all later config.inputs.operator request.image ++
    [⟨config.inputs.template, all, failure? value⟩,
     ⟨config.inputs.template, all, failure? do Manifest.render (← value)⟩]

/-- All checks of a build that finds these resource definitions. -/
def steps (config : Config) (request : Request) (now : Instant) (store : Memory)
    (files : List NamedFile) : List Step :=
  let crdDir := config.inputs.crdDir
  manifestSteps 0 store config.inputs.template ++
    [⟨crdDir, 0, failure? ((prepared config request store).list ⟨crdDir⟩)⟩] ++
    definitionsSteps 0 store files ++
    laterSteps config request now store
      (store.writeAll (copies (bundleDir config request) store files)) files

/-! ## The first step that fails -/

def Passes (steps : List Step) : Prop := ∀ step ∈ steps, step.failure = none

/-- The first step that fails is this one, and it fails in this way. -/
structure IsFirstFailure (steps : List Step) (step : Step) (e : BundleError) : Prop where
  first : ∃ before after, steps = before ++ step :: after ∧ Passes before
  failure_eq : step.failure = some e
  /-- If the error is about an input, then about the one that the step is about. -/
  source_eq : ∀ p, e.path? = some p → p = step.source

/-- The steps fail in this way, when so many resource definitions have been copied. -/
def FailsAt (steps : List Step) (e : BundleError) (copied : Nat) : Prop :=
  ∃ step, IsFirstFailure steps step e ∧ step.copied = copied

/-- Steps of two parts pass if both parts do. -/
theorem Passes.append {a b : List Step} (ha : Passes a) (hb : Passes b) : Passes (a ++ b) := by
  intro step hstep
  rcases List.mem_append.mp hstep with h | h
  · exact ha step h
  · exact hb step h

theorem passes_nil : Passes [] := by
  intro step h
  exact absurd h List.not_mem_nil

/-- Steps pass if the first does and the others do. -/
theorem Passes.cons {step : Step} {steps : List Step} (h : step.failure = none)
    (hsteps : Passes steps) : Passes (step :: steps) := by
  intro other hother
  rcases List.mem_cons.mp hother with rfl | hother
  · exact h
  · exact hsteps other hother

/-- What comes after the first step that fails has no part in it. -/
theorem FailsAt.append {a : List Step} {e : BundleError} {copied : Nat} (h : FailsAt a e copied)
    (b : List Step) : FailsAt (a ++ b) e copied := by
  rcases h with ⟨step, ⟨⟨before, after, rfl, hbefore⟩, hfailure, hsource⟩, hcopied⟩
  refine ⟨step, ⟨⟨before, after ++ b, ?_, hbefore⟩, hfailure, hsource⟩, hcopied⟩
  rw [List.append_assoc, List.cons_append]

/-- Steps that pass may be put in front. -/
theorem Passes.failsAt_append {a b : List Step} {e : BundleError} {copied : Nat} (ha : Passes a)
    (h : FailsAt b e copied) : FailsAt (a ++ b) e copied := by
  rcases h with ⟨step, ⟨⟨before, after, rfl, hbefore⟩, hfailure, hsource⟩, hcopied⟩
  refine ⟨step, ⟨⟨a ++ before, after, ?_, ha.append hbefore⟩, hfailure, hsource⟩, hcopied⟩
  rw [List.append_assoc]

/-- Steps fail at the first if it fails. -/
theorem failsAt_of_eq_error {α : Type} {source : String} {copied : Nat} {x : Except BundleError α}
    {e : BundleError} (h : x = .error e) (hsource : ∀ p, e.path? = some p → p = source)
    (later : List Step) : FailsAt (⟨source, copied, failure? x⟩ :: later) e copied :=
  ⟨_, ⟨⟨[], later, rfl, passes_nil⟩, congrArg failure? h, hsource⟩, rfl⟩

/-- A computation that fails and names its source is the first step that fails. -/
theorem failsAt_of_names {α : Type} {source : String} {copied : Nat} {x : Except BundleError α}
    {e : BundleError} (hnames : Names source x) (h : x = .error e) (later : List Step) :
    FailsAt (⟨source, copied, failure? x⟩ :: later) e copied := by
  refine failsAt_of_eq_error h (fun p hp => ?_) later
  rw [hnames e h] at hp
  exact (Option.some.inj hp).symm

/-- These steps, all with so many copies made, are those of the computation `x`. -/
structure Covers {α : Type} (steps : List Step) (copied : Nat) (x : Except BundleError α) :
    Prop where
  passes : ∀ a, x = .ok a → Passes steps
  failsAt : ∀ e, x = .error e → FailsAt steps e copied

/-- No step is needed for what is given. -/
theorem covers_ok {α : Type} (copied : Nat) (a : α) : Covers [] copied (.ok a) where
  passes _ _ := passes_nil
  failsAt _ h := nomatch h

/-- One step covers an outcome that names its source. -/
theorem covers_of_names {α : Type} {source : String} (copied : Nat) {x : Except BundleError α}
    (hnames : Names source x) : Covers [⟨source, copied, failure? x⟩] copied x where
  passes _ h := passes_nil.cons (congrArg failure? h)
  failsAt _ h := failsAt_of_names hnames h []

/-- A computation with one more part has one more step. -/
theorem Covers.bind {α β : Type} {steps : List Step} {copied : Nat} {source : String}
    {x : Except BundleError α} {f : α → Except BundleError β} (h : Covers steps copied x)
    (hf : ∀ a, Names source (f a)) :
    Covers (steps ++ [⟨source, copied, failure? (x >>= f)⟩]) copied (x >>= f) where
  passes b hb := by
    rcases bind_eq_ok_iff.mp hb with ⟨a, ha, _⟩
    exact (h.passes a ha).append (passes_nil.cons (congrArg failure? hb))
  failsAt e he := by
    rcases bind_eq_error_iff.mp he with hx | ⟨a, ha, hfa⟩
    · exact (h.failsAt e hx).append _
    · have hthis : x >>= f = f a := congrArg (· >>= f) ha
      rw [hthis]
      exact (h.passes a ha).failsAt_append (failsAt_of_names (hf a) hfa [])

/-- The steps of what follows come after the step of the first part. -/
theorem Covers.cons {α β : Type} {later : List Step} {copied : Nat} {source : String}
    {x : Except BundleError α} {f : α → Except BundleError β} (hx : Names source x)
    (h : ∀ a, x = .ok a → Covers later copied (f a)) :
    Covers (⟨source, copied, failure? x⟩ :: later) copied (x >>= f) where
  passes b hb := by
    rcases bind_eq_ok_iff.mp hb with ⟨a, ha, hfa⟩
    exact ((h a ha).passes b hfa).cons (congrArg failure? ha)
  failsAt e he := by
    rcases bind_eq_error_iff.mp he with hx' | ⟨a, ha, hfa⟩
    · exact failsAt_of_names hx hx' later
    · exact Passes.failsAt_append (passes_nil.cons (congrArg failure? ha)) ((h a ha).failsAt e hfa)

/-- What is made of a result has no step of its own. -/
theorem Covers.map {α β : Type} {steps : List Step} {copied : Nat} {x : Except BundleError α}
    (h : Covers steps copied x) (f : α → β) :
    Covers steps copied (x >>= fun a => pure (f a)) where
  passes b hb := by
    rcases bind_eq_ok_iff.mp hb with ⟨a, ha, _⟩
    exact h.passes a ha
  failsAt e he := by
    rcases bind_eq_error_iff.mp he with hx | ⟨a, _, ha⟩
    · exact h.failsAt e hx
    · cases ha

/-! ## Each part of a build by its steps -/

/-- A manifest that cannot be read is named. -/
theorem names_manifestIn (store : Memory) (p : Path) : Names p.text (manifestIn store p) :=
  (store.names_read p).bind fun text => Manifest.names_read p.text text

/-- The steps for a manifest cover reading it. -/
theorem covers_manifestSteps (copied : Nat) (store : Memory) (source : String) :
    Covers (manifestSteps copied store source) copied (manifestIn store ⟨source⟩) :=
  (covers_of_names copied (store.names_read ⟨source⟩)).bind fun text =>
    Manifest.names_read source text

/-- The steps for a definition cover reading it. -/
theorem covers_definitionSteps (copied : Nat) (store : Memory) (file : NamedFile) :
    Covers (definitionSteps copied store file) copied (summary store file) := by
  refine Covers.cons (names_manifestIn store file.2) fun document hdocument => ?_
  rw [hdocument]
  refine Covers.cons (Manifest.names_demand _ _ _) fun name _ => ?_
  refine Covers.cons (Manifest.names_demand _ _ _) fun kind _ => ?_
  exact Covers.cons (OwnedCrd.names_version? _ _) fun version _ => covers_ok copied _

/-- The steps for all definitions pass if all of them are read. -/
theorem passes_definitionsSteps {store : Memory} {files : List NamedFile} {crds : List OwnedCrd}
    (copied : Nat) (h : files.mapM (summary store) = .ok crds) :
    Passes (definitionsSteps copied store files) := by
  induction files generalizing copied crds with
  | nil => exact passes_nil
  | cons file files ih =>
      obtain ⟨crd, rest, hcrd, hrest, _⟩ := mapM_cons_eq_ok_iff.mp h
      have hfile := (covers_definitionSteps (copied + 1) store file).passes crd hcrd
      exact hfile.append (ih (copied + 1) hrest)

/-- The resource definition that fails is the last that is copied. -/
theorem failsAt_definitionsSteps {store : Memory} {files : List NamedFile} {e : BundleError}
    (copied : Nat) (h : files.mapM (summary store) = .error e) :
    FailsAt (definitionsSteps copied store files) e (copied + (reached store files).length) := by
  induction files generalizing copied with
  | nil => cases h
  | cons file files ih =>
      have hcovers := covers_definitionSteps (copied + 1) store file
      rcases mapM_cons_eq_error_iff.mp h with hfile | ⟨crd, hcrd, hrest⟩
      · rw [reached, hfile]
        exact (hcovers.failsAt e hfile).append _
      · have hlength : copied + (file :: reached store files).length =
            copied + 1 + (reached store files).length := by
          rw [List.length_cons]
          omega
        rw [reached, hcrd, hlength]
        exact (hcovers.passes crd hcrd).failsAt_append (ih (copied + 1) hrest)

/-- The steps for the role cover reading the permissions. -/
theorem covers_roleSteps (config : Config) (copied : Nat) (store : Memory) :
    Covers (roleSteps copied store config.inputs.clusterRole) copied (permissionIn config store) := by
  have hrules := (covers_manifestSteps copied store config.inputs.clusterRole).bind fun role =>
    Manifest.names_demand config.inputs.clusterRole "rules"
      ((role.lookup? "rules").bind (·.asSequence?))
  have hmade := hrules.map fun rules => ClusterPermission.mk rules config.bundle.serviceAccount
  rw [bind_assoc] at hmade
  exact hmade

/-- A deployment that cannot be given an image is named. -/
theorem names_withImage (d : Deployment) (source image : String) :
    Names source (d.withImage source image) :=
  (Manifest.names_demand source _ _).bind fun _ => names_ok source _

/-- The deployment is the one that is read, with the image. -/
theorem deploymentIn_eq (config : Config) (image : String) (store : Memory) :
    deploymentIn config image store = (specIn store config.inputs.operator >>= fun spec =>
      Deployment.withImage ⟨spec⟩ config.inputs.operator image) := by
  simp only [deploymentIn, specIn, documentIn, firstIn, Deployment.ofStream, bind_assoc, pure_bind]

/-- The steps for the operator cover reading the deployment. -/
theorem covers_operatorSteps (config : Config) (image : String) (copied : Nat) (store : Memory) :
    Covers (operatorSteps copied store config.inputs.operator image) copied
      (deploymentIn config image store) := by
  have hread := covers_of_names copied (store.names_read ⟨config.inputs.operator⟩)
  have hfirst := hread.bind fun text => Manifest.names_readFirst config.inputs.operator text
  have hdocument := hfirst.bind fun first =>
    Manifest.names_demand config.inputs.operator "<first document>" first
  have hspec := hdocument.bind fun document =>
    Manifest.names_demand config.inputs.operator "spec" (document.lookup? "spec")
  rw [deploymentIn_eq]
  exact hspec.bind fun spec => names_withImage ⟨spec⟩ config.inputs.operator image

/-- That a document has no written form is not blamed on an input. -/
theorem path?_of_render {v : Value} {e : BundleError} (h : Manifest.render v = .error e)
    (p : String) : e.path? ≠ some p := by
  unfold Manifest.render at h
  split at h
  · cases h
  · rw [← Except.error.inj h]
    intro hp
    cases hp

/-- What fails behind the definitions fails at one of the later steps. -/
theorem failsAt_laterSteps {config : Config} {request : Request} {now : Instant}
    {store later : Memory} {files : List NamedFile} {template : Value} {crds : List OwnedCrd}
    {e : BundleError} (htemplate : manifestIn store ⟨config.inputs.template⟩ = .ok template)
    (hcrds : files.mapM (summary store) = .ok crds)
    (h : descriptorIn config request now template crds later = .error e) :
    FailsAt (laterSteps config request now store later files) e files.length := by
  unfold laterSteps
  have hrole := covers_roleSteps config files.length later
  have hoperator := covers_operatorSteps config request.image files.length later
  -- one case for each part that can fail, behind those that have succeeded
  rcases bind_eq_error_iff.mp h with hfails | ⟨permission, hpermission, h⟩
  · exact ((hrole.failsAt e hfails).append _).append _
  rcases bind_eq_error_iff.mp h with hfails | ⟨deployment, hdeployment, h⟩
  · exact ((hrole.passes _ hpermission).failsAt_append (hoperator.failsAt e hfails)).append _
  refine ((hrole.passes _ hpermission).append (hoperator.passes _ hdeployment)).failsAt_append ?_
  have hassembled : assembled config request now store later files =
      (descriptor config request now crds permission deployment).assemble config.inputs.template
        template := by
    rw [assembled, htemplate, hcrds, hpermission, hdeployment]
    rfl
  simp only [hassembled]
  rw [descriptorText_eq] at h
  rcases bind_eq_error_iff.mp h with hfails | ⟨csv, hcsv, h⟩
  · exact failsAt_of_names (Descriptor.names_assemble _ _ _) hfails _
  · rw [hcsv]
    refine Passes.failsAt_append (passes_nil.cons rfl) ?_
    exact failsAt_of_eq_error h (fun p hp => absurd hp (path?_of_render h p)) []

/-! ## The result -/

/-- What is known when a build fails: where it failed, and which copies it had made. -/
theorem effect_eq_error {config : Config} {request : Request} {now : Instant} {store : Memory}
    {e : BundleError} (h : (effect config request now store).1 = .error e) :
    ∃ n, FailsAt (steps config request now store (selection config store)) e n ∧
      (effect config request now store).2 =
        copies (bundleDir config request) store ((selection config store).take n) := by
  unfold effect at h ⊢
  unfold steps
  have htemplates := covers_manifestSteps 0 store config.inputs.template
  have hlists := covers_of_names 0 ((prepared config request store).names_list ⟨config.inputs.crdDir⟩)
  simp only at h ⊢
  split at h
  -- the template: nothing has been copied yet
  · rename_i d htemplate
    have hd : d = e := Except.error.inj h
    exact ⟨0, (((htemplates.failsAt e (hd ▸ htemplate)).append _).append _).append _, rfl⟩
  rename_i template htemplate
  have hpassed := htemplates.passes template htemplate
  split at h
  -- the listing: nothing has been copied yet either
  · rename_i d hlist
    have hd : d = e := Except.error.inj h
    have hfails := hpassed.failsAt_append (hlists.failsAt e (hd ▸ hlist))
    exact ⟨0, (hfails.append _).append _, rfl⟩
  rename_i listed hlist
  have hlisted := hpassed.append (hlists.passes listed hlist)
  split at h
  -- a resource definition: those up to it have been copied
  · rename_i d hcrds
    have hd : d = e := Except.error.inj h
    have hfails := hlisted.failsAt_append (failsAt_definitionsSteps 0 (hd ▸ hcrds))
    refine ⟨_, hfails.append _, ?_⟩
    rw [Nat.zero_add, take_length_reached]
  rename_i crds hcrds
  have hcollected := hlisted.append (passes_definitionsSteps 0 hcrds)
  rw [reached_eq_self hcrds] at h ⊢
  split at h
  -- anything behind: all of them have been copied
  · rename_i d htext
    have hd : d = e := Except.error.inj h
    refine ⟨_, hcollected.failsAt_append (failsAt_laterSteps htemplate hcrds (hd ▸ htext)), ?_⟩
    rw [List.take_length]
  · cases h

/-- What is true of a build that stopped with an error in a step. -/
structure IsStopped (config : Config) (request : Request) (now : Instant) (initial final : Memory)
    (e : BundleError) (files : List NamedFile) (step : Step) : Prop where
  /-- No step before it fails, and the error is its own. -/
  firstFailure : IsFirstFailure (steps config request now initial files) step e
  /-- A copy made by then holds what its original held before the build. -/
  text_copy : ∀ file ∈ files.take step.copied, ∀ q,
    (destination (bundleDir config request) file).components = q.components →
      final.text? q = initial.text? file.2 ∧ (initial.text? file.2).isSome
  /-- All other files are as they were, that of the descriptor among them. -/
  text_other : ∀ q, (∀ file ∈ files.take step.copied,
    (destination (bundleDir config request) file).components ≠ q.components) →
      final.text? q = initial.text? q
  /-- No file is removed. -/
  text_kept : ∀ q, (initial.text? q).isSome → (final.text? q).isSome
  /-- The directories of the bundle and those above them were made, as far as they have names. -/
  directories : ∀ q, final.HasDirectory q ↔ initial.HasDirectory q ∨
    ∃ a ∈ request.outputDir.ancestors ++ (bundleDir config request).ancestors,
      a.text ≠ "" ∧ a.components = q.components

/-- A build that fails stops at the first step that fails, and leaves the copies made by then and
nothing else. -/
theorem isStopped_of_run_eq_error {config : Config} {request : Request} {now : Instant}
    {store final : Memory} {e : BundleError} (hmap : store.IsMap)
    (h : (run config request now : StoreM Memory Outcome).run store = (.error e, final)) :
    ∃ files step, IsSelection config store files ∧
      IsStopped config request now store final e files step := by
  rw [run_eq config request now hmap] at h
  rcases Prod.mk.inj h with ⟨hresult, hfinal⟩
  rcases effect_eq_error hresult with ⟨n, ⟨step, hfirst, rfl⟩, hwrites⟩
  rw [hwrites] at hfinal
  refine ⟨selection config store, step, isSelection_selection config hmap, ?_⟩
  exact {
    firstFailure := hfirst
    text_copy := by
      intro file hfile q hq
      rcases text?_of_mem_selection hmap (List.mem_of_mem_take hfile) with ⟨before, hbefore⟩
      rw [← hfinal, text?_writeAll_copies (prepared config request store) hmap
        (bundleDir config request) (fun _ => List.mem_of_mem_take) hfile hq]
      exact ⟨rfl, by rw [hbefore]; rfl⟩
    text_other := by
      intro q hother
      rw [← hfinal]
      exact text?_writeAll_copies_of_ne hother
    text_kept := by
      intro q hq
      rw [← hfinal]
      exact Memory.isSome_text?_writeAll _ hq
    directories := by
      intro q
      rw [← hfinal]
      exact hasDirectory_writeAll_prepared config request store _ q }

/-- A store in which the second of three resource definitions has no kind and there is no role. -/
def brokenStore : Memory where
  files :=
    [(⟨"t"⟩, "{metadata: {}, spec: {install: {spec: {deployments: [{}]}}}}"),
     (⟨"d/c.y"⟩, "{metadata: {name: n}, spec: {names: {kind: K}, version: v}}"),
     (⟨"d/b.y"⟩, "{metadata: {name: n}, spec: {version: v}}"),
     (⟨"d/a.y"⟩, "{metadata: {name: m}, spec: {names: {kind: L}, version: 1}}"),
     (⟨"o"⟩, "spec: {template: {spec: {containers: [{}]}}}")]

/-- Of the two things that are wrong the one that is found first ends the build. -/
theorem isStopped_broken :
    brokenStore.IsMap ∧ ∃ final files step,
      (run smallConfig smallRequest ⟨0, 0⟩ : StoreM Memory Outcome).run brokenStore =
        (.error (.missingField "d/b.y" "spec.names.kind"), final) ∧
      IsSelection smallConfig brokenStore files ∧
      IsStopped smallConfig smallRequest ⟨0, 0⟩ brokenStore final
        (.missingField "d/b.y" "spec.names.kind") files step := by
  have hmap : brokenStore.IsMap := by
    unfold Memory.IsMap
    decide +kernel
  have herror : failure? ((run smallConfig smallRequest ⟨0, 0⟩ : StoreM Memory Outcome).run
      brokenStore).1 = some (.missingField "d/b.y" "spec.names.kind") := by
    decide +kernel
  rcases hrun : (run smallConfig smallRequest ⟨0, 0⟩ : StoreM Memory Outcome).run brokenStore with
    ⟨result, final⟩
  rw [hrun] at herror
  cases result with
  | ok result => cases herror
  | error e =>
      have he : e = .missingField "d/b.y" "spec.names.kind" := Option.some.inj herror
      subst he
      rcases isStopped_of_run_eq_error hmap hrun with ⟨files, step, hfiles, hstopped⟩
      exact ⟨hmap, final, files, step, rfl, hfiles, hstopped⟩

end OperatorBundle.Build
