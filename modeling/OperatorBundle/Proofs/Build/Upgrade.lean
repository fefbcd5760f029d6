import OperatorBundle.Proofs.Build.Confinement
import OperatorBundle.Proofs.Manifest.Slots

/-!
# The chain of upgrades

A published operator is upgraded from one bundle to the next: each descriptor names the one that it
replaces.  A store on which many builds are run one after the other, while inputs are changed in
between, keeps this chain.  `Takes` is what such a history does to a store, event by event;
`isIntact_of_takes` says that at its end every descriptor is as it was made and names the one before.
-/

namespace OperatorBundle.Build

open Calendar (Instant)
open Store (Memory)
open Yaml (Value)

/-- One event of a history. -/
inductive Event where
  /-- A text is put into a file. -/
  | write (p : Path) (text : String)
  /-- A bundle is built. -/
  | build (config : Config) (request : Request) (now : Instant)

/-- A build that succeeded, with the store as it found it and as it left it. -/
structure Release where
  config : Config
  request : Request
  now : Instant
  before : Memory
  after : Memory
  outcome : Outcome

/-- What is assembled for a release. -/
def Release.assembled (r : Release) : Except BundleError Value :=
  assembledIn r.config r.request r.now r.before

/-- What some events, of which each build succeeds, make of a store, and their builds. -/
inductive Takes : Memory → List Event → List Release → Memory → Prop where
  | done {store : Memory} : Takes store [] [] store
  | write {store final : Memory} {p : Path} {text : String} {events : List Event}
      {releases : List Release} (later : Takes (store.write p text) events releases final) :
      Takes store (.write p text :: events) releases final
  | build {store middle final : Memory} {config : Config} {request : Request} {now : Instant}
      {result : Outcome} {events : List Event} {releases : List Release}
      (succeeds :
        (run config request now : StoreM Memory Outcome).run store = (.ok result, middle))
      (later : Takes middle events releases final) :
      Takes store (.build config request now :: events)
        (⟨config, request, now, store, middle, result⟩ :: releases) final

/-- Does the second release come right after the first? -/
def AreConsecutive (releases : List Release) (a b : Release) : Prop :=
  ∃ earlier later, releases = earlier ++ a :: b :: later

/-- The releases of one operator, each made as the successor of the one before, while nobody else
writes into their bundles.  All else may change from one to the next, also the output directory. -/
structure IsUpgradeChain (operator : String) (events : List Event) (releases : List Release) :
    Prop where
  name : ∀ r ∈ releases, r.config.bundle.name = operator
  parts : ∀ r ∈ releases, HasPlainParts r.config r.request
  versions : releases.Pairwise fun a b => a.outcome.version ≠ b.outcome.version
  previous : ∀ a b, AreConsecutive releases a b →
    b.request.previousVersion = a.outcome.version.text
  writes : ∀ p text, .write p text ∈ events → ∀ r ∈ releases,
    Memory.standsIn r.outcome.versionDir p = false

/-- All descriptors are there, and each names the one before. -/
structure IsIntact (releases : List Release) (final : Memory) : Prop where
  /-- Every descriptor still has the text that its build gave it. -/
  kept : ∀ r ∈ releases, ∃ csv text, r.assembled = .ok csv ∧ Manifest.render csv = .ok text ∧
    r.after.text? r.outcome.descriptorPath = some text ∧
    final.text? r.outcome.descriptorPath = some text
  linked : ∀ a b, AreConsecutive releases a b → ∃ older newer name, a.assembled = .ok older ∧
    b.assembled = .ok newer ∧ older.lookup? "metadata.name" = some name ∧
    newer.lookup? "spec.replaces" = some name

/-! ## Single builds -/

section

variable {config : Config} {request : Request} {now : Instant} {store final : Memory}
  {result : Outcome}

theorem isMap_of_run (hmap : store.IsMap)
    (h : (run config request now : StoreM Memory Outcome).run store = (.ok result, final)) :
    final.IsMap := by
  rw [run_eq config request now hmap] at h
  rw [← (Prod.mk.inj h).2]
  have hprepared : (prepared config request store).IsMap := hmap
  exact hprepared.writeAll _

/-- Where the outcome of a build says that the bundle is. -/
theorem outcome_of_run_eq_ok (hmap : store.IsMap)
    (h : (run config request now : StoreM Memory Outcome).run store = (.ok result, final)) :
    result = outcome config request (selection config store) := by
  rw [run_eq config request now hmap] at h
  rcases effect_eq_ok (Prod.mk.inj h).1 with ⟨_, _, _, _, _, _, houtcome, _⟩
  exact houtcome

/-- How an assembled descriptor names itself and the one before. -/
theorem lookup?_assembledIn {csv : Value} (h : assembledIn config request now store = .ok csv) :
    csv.lookup? "metadata.name" =
        some (.string (publishedName config.bundle.name (request.version config).text)) ∧
      csv.lookup? "spec.replaces" =
        some (.string (publishedName config.bundle.name request.previousVersion)) := by
  rcases bind_eq_ok_iff.mp h with ⟨template, _, h⟩
  rcases bind_eq_ok_iff.mp h with ⟨crds, _, h⟩
  rcases bind_eq_ok_iff.mp h with ⟨permission, _, h⟩
  rcases bind_eq_ok_iff.mp h with ⟨deployment, _, h⟩
  have hoverlay := Descriptor.overlay_of_assemble h
  rcases Descriptor.lookup?_metadata hoverlay with ⟨hname, _⟩
  rcases Descriptor.lookup?_spec hoverlay with ⟨_, hlink, _⟩
  exact ⟨hname, hlink⟩

end

/-! ## Histories -/

variable {store final : Memory} {events : List Event} {releases : List Release} {operator : String}

/-- Every release of a history is a build that succeeded on a map. -/
theorem Takes.run_eq_ok (h : Takes store events releases final) (hmap : store.IsMap) :
    ∀ r ∈ releases, r.before.IsMap ∧
      (run r.config r.request r.now : StoreM Memory Outcome).run r.before =
        (.ok r.outcome, r.after) := by
  induction h with
  | done => exact fun r hr => absurd hr List.not_mem_nil
  | write later ih => exact ih (hmap.write _ _)
  | build succeeds later ih =>
      intro r hr
      rcases List.mem_cons.mp hr with rfl | hr
      · exact ⟨hmap, succeeds⟩
      · exact ih (isMap_of_run hmap succeeds) r hr

/-- A file is as it was if the history does not write it and builds no bundle in its directory. -/
theorem Takes.text?_eq (h : Takes store events releases final) (hmap : store.IsMap)
    (hparts : ∀ r ∈ releases, HasPlainParts r.config r.request) {p : Path}
    (hbuilds : ∀ r ∈ releases, Memory.standsIn r.outcome.versionDir p = false)
    (hwrites : ∀ q text, .write q text ∈ events → q.components ≠ p.components) :
    final.text? p = store.text? p := by
  induction h with
  | done => rfl
  | @write store final q text events releases later ih =>
      have hne := hwrites q text List.mem_cons_self
      rw [ih (hmap.write _ _) hparts hbuilds
        fun q' text' h => hwrites q' text' (List.mem_cons_of_mem _ h), Memory.text?_write,
        if_neg hne]
  | @build store middle final config request now result events releases succeeds later ih =>
      have hplain := hparts _ List.mem_cons_self
      have hnot := hbuilds _ List.mem_cons_self
      rw [outcome_of_run_eq_ok hmap succeeds] at hnot
      -- the build leaves the path alone, as it stands in no directory the build replaces
      have hstep := hplain.text?_run now hmap fun name hname =>
        absurd (Memory.standsIn_of_components hname) (Bool.eq_false_iff.mp hnot)
      rw [succeeds] at hstep
      rw [ih (isMap_of_run hmap succeeds) (fun r hr => hparts r (List.mem_cons_of_mem _ hr))
        (fun r hr => hbuilds r (List.mem_cons_of_mem _ hr))
        fun q text h => hwrites q text (List.mem_cons_of_mem _ h)]
      exact hstep

theorem IsUpgradeChain.tail {event : Event} (h : IsUpgradeChain operator (event :: events) releases) :
    IsUpgradeChain operator events releases :=
  { h with writes := fun p text hmem => h.writes p text (List.mem_cons_of_mem _ hmem) }

theorem IsUpgradeChain.later {r : Release} (h : IsUpgradeChain operator events (r :: releases)) :
    IsUpgradeChain operator events releases where
  name r' hr' := h.name r' (List.mem_cons_of_mem _ hr')
  parts r' hr' := h.parts r' (List.mem_cons_of_mem _ hr')
  versions := (List.pairwise_cons.mp h.versions).2
  previous a b hab := by
    rcases hab with ⟨earlier, later, rfl⟩
    exact h.previous a b ⟨r :: earlier, later, rfl⟩
  writes p text hmem r' hr' := h.writes p text hmem r' (List.mem_cons_of_mem _ hr')

/-- The descriptor of a release stands in the directory of its own bundle and of no other. -/
theorem Takes.components_descriptorPath (h : Takes store events releases final) (hmap : store.IsMap)
    (hparts : ∀ r ∈ releases, HasPlainParts r.config r.request) {r : Release} (hr : r ∈ releases) :
    r.outcome.version = r.request.version r.config ∧
      r.outcome.versionDir = bundleDir r.config r.request ∧
      ∃ name, r.outcome.descriptorPath.components =
        r.outcome.versionDir.components ++ [.name name] := by
  rcases h.run_eq_ok hmap r hr with ⟨hbefore, hrun⟩
  rw [outcome_of_run_eq_ok hbefore hrun]
  exact ⟨rfl, rfl, _, (hparts r hr).components_descriptorPath⟩

/-- Nothing that happens after a build touches its descriptor. -/
theorem Takes.kept (h : Takes store events releases final) (hmap : store.IsMap)
    (hchain : IsUpgradeChain operator events releases) :
    ∀ r ∈ releases, ∃ csv text, r.assembled = .ok csv ∧ Manifest.render csv = .ok text ∧
      r.after.text? r.outcome.descriptorPath = some text ∧
      final.text? r.outcome.descriptorPath = some text := by
  induction h with
  | done => exact fun r hr => absurd hr List.not_mem_nil
  | write later ih => exact ih (hmap.write _ _) hchain.tail
  | @build store middle final config request now result events releases succeeds later ih =>
      intro r hr
      have hmiddle := isMap_of_run hmap succeeds
      rcases List.mem_cons.mp hr with rfl | hr
      · rcases rendered_of_run_eq_ok hmap succeeds with ⟨csv, text, hcsv, hrender, htext⟩
        refine ⟨csv, text, hcsv, hrender, htext, ?_⟩
        have hwhole := Takes.build succeeds later
        rcases hwhole.components_descriptorPath hmap hchain.parts hr with
          ⟨hversion, hdir, name, hname⟩
        simp only at hversion hdir hname ⊢
        rw [← htext]
        -- what happens behind the build are later bundles and writes from outside
        refine later.text?_eq hmiddle hchain.later.parts (fun r' hr' => ?_) fun q other hq => ?_
        · -- a later bundle has another version, and so another directory
          rcases hwhole.components_descriptorPath hmap hchain.parts (List.mem_cons_of_mem _ hr')
            with ⟨hversion', hdir', _⟩
          have hne := (List.pairwise_cons.mp hchain.versions).1 r' hr'
          refine Memory.standsIn_eq_false_of_components hname ?_
          rw [hdir, hdir']
          refine (hchain.parts _ List.mem_cons_self).bundleDir_ne (hchain.later.parts r' hr') ?_
          rw [← hversion, ← hversion']
          exact hne.symm
        · intro hsame
          have hnot := hchain.writes q other (List.mem_cons_of_mem _ hq) _ List.mem_cons_self
          rw [Memory.standsIn_congr hsame, Memory.standsIn_of_components hname] at hnot
          cases hnot
      · exact ih hmiddle hchain.later.tail r hr

/-! ## The result -/

/-- The chain of upgrades stays intact over histories of any length. -/
theorem isIntact_of_takes (h : Takes store events releases final) (hmap : store.IsMap)
    (hchain : IsUpgradeChain operator events releases) : IsIntact releases final where
  kept := h.kept hmap hchain
  linked := by
    intro a b hab
    have hprevious := hchain.previous a b hab
    rcases hab with ⟨earlier, later, rfl⟩
    have ha : a ∈ earlier ++ a :: b :: later := List.mem_append_right _ List.mem_cons_self
    have hb : b ∈ earlier ++ a :: b :: later :=
      List.mem_append_right _ (List.mem_cons_of_mem _ List.mem_cons_self)
    rcases h.kept hmap hchain a ha with ⟨older, _, holder, _⟩
    rcases h.kept hmap hchain b hb with ⟨newer, _, hnewer, _⟩
    rcases h.components_descriptorPath hmap hchain.parts ha with ⟨hversion, _⟩
    refine ⟨older, newer, _, holder, hnewer, (lookup?_assembledIn holder).1, ?_⟩
    rw [(lookup?_assembledIn hnewer).2, hprevious, hversion, hchain.name a ha, hchain.name b hb]

/-- The small build, a new template, and the build of the next commit. -/
theorem isIntact_small :
    let next := { smallRequest with commitCount := "3", previousVersion := "0.1.2-b" }
    let template := "{metadata: {name: old}, spec: {install: {spec: {deployments: [{}]}}}}"
    let events : List Event := [.build smallConfig smallRequest ⟨0, 0⟩, .write ⟨"t"⟩ template,
      .build smallConfig next ⟨1, 0⟩]
    ∃ releases final, releases.length = 2 ∧ smallStore.IsMap ∧
      Takes smallStore events releases final ∧ IsUpgradeChain "op" events releases ∧
      IsIntact releases final := by
  intro next template events
  have hok : ((run smallConfig smallRequest ⟨0, 0⟩ : StoreM Memory Outcome).run
      smallStore).1.isOk = true := by
    decide +kernel
  have hokNext : ((run smallConfig next ⟨1, 0⟩ : StoreM Memory Outcome).run
      (((run smallConfig smallRequest ⟨0, 0⟩ : StoreM Memory Outcome).run
        smallStore).2.write ⟨"t"⟩ template)).1.isOk = true := by
    decide +kernel
  rcases hrun : (run smallConfig smallRequest ⟨0, 0⟩ : StoreM Memory Outcome).run smallStore with
    ⟨result, middle⟩
  rw [hrun] at hok hokNext
  rcases hrunNext : (run smallConfig next ⟨1, 0⟩ : StoreM Memory Outcome).run
    (middle.write ⟨"t"⟩ template) with ⟨resultNext, final⟩
  rw [hrunNext] at hokNext
  cases result with
  | error e => cases hok
  | ok first =>
  cases resultNext with
  | error e => cases hokNext
  | ok second =>
  have htakes := Takes.build hrun (.write (.build hrunNext .done))
  have hmiddle := (isMap_of_run isMap_smallStore hrun).write ⟨"t"⟩ template
  rw [outcome_of_run_eq_ok isMap_smallStore hrun,
    outcome_of_run_eq_ok hmiddle hrunNext] at htakes
  have hparts : HasPlainParts smallConfig smallRequest := by
    constructor <;> decide +kernel
  have hpartsNext : HasPlainParts smallConfig next := by
    constructor <;> decide +kernel
  have hversions : smallRequest.version smallConfig ≠ next.version smallConfig := by
    decide +kernel
  have hprevious : next.previousVersion = (smallRequest.version smallConfig).text := by
    decide +kernel
  have hwrites : Memory.standsIn (bundleDir smallConfig smallRequest) ⟨"t"⟩ = false ∧
      Memory.standsIn (bundleDir smallConfig next) ⟨"t"⟩ = false := by
    decide +kernel
  refine ⟨_, final, ?_, isMap_smallStore, htakes, ?hchain,
    isIntact_of_takes htakes isMap_smallStore ?hchain⟩
  · rfl
  exact {
    name := List.forall_mem_cons.mpr ⟨rfl, List.forall_mem_singleton.mpr rfl⟩
    parts := List.forall_mem_cons.mpr ⟨hparts, List.forall_mem_singleton.mpr hpartsNext⟩
    versions := List.pairwise_pair.mpr hversions
    previous := by
      rintro a b ⟨earlier, later, hab⟩
      cases earlier with
      | nil =>
          cases hab
          exact hprevious
      | cons r earlier =>
          have hlength := congrArg List.length hab
          simp at hlength
          omega
    writes := by
      intro p text hmem
      simp only [events, List.mem_cons, List.not_mem_nil, or_false, reduceCtorEq, false_or,
        Event.write.injEq] at hmem
      rcases hmem with ⟨rfl, _⟩
      exact List.forall_mem_cons.mpr ⟨hwrites.1, List.forall_mem_singleton.mpr hwrites.2⟩ }

end OperatorBundle.Build
