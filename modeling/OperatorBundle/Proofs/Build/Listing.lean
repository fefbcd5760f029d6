import OperatorBundle.Proofs.Build.Effect
import OperatorBundle.Proofs.Store.Listing
import OperatorBundle.Proofs.Store.Mirror

/-!
# Builds and the order of listings

The resource definitions are sorted before anything is done with them, and in one directory no two
have the same name.  So a build has one result and leaves one store behind, in whatever order the
directory is listed: `run_eq_run_of_orders`.
-/

namespace OperatorBundle.Build

open Calendar (Instant)
open Store (ArrangedM Disk Follows KeepsNamesApart Memory Order)
open Yaml (Value)

variable {σ : Type} [FileStore (StoreM σ)] {order : Order σ} {store : σ}

/-! ## The parts of a build -/

theorem follows_readManifest (p : Path) :
    Follows order store (readManifest p) (readManifest p : StoreM σ Value) :=
  (Store.follows_read p).bind fun _ _ _ => Store.follows_ofExcept _

theorem follows_collectCrd (directory : Path) (file : NamedFile) (store : σ) :
    Follows order store (collectCrd directory file)
      (collectCrd directory file : StoreM σ (OwnedCrd × Path)) := by
  refine (Store.follows_copy file.2 _).bind fun _ _ _ => ?_
  refine (follows_readManifest file.2).bind fun document _ _ => ?_
  exact (Store.follows_ofExcept _).bind fun crd _ _ => Store.follows_pure _

theorem follows_readPermission (config : Config) :
    Follows order store (readPermission config)
      (readPermission config : StoreM σ ClusterPermission) :=
  (follows_readManifest _).bind fun _ _ _ => Store.follows_ofExcept _

theorem follows_readDeployment (config : Config) (image : String) :
    Follows order store (readDeployment config image)
      (readDeployment config image : StoreM σ Deployment) :=
  (Store.follows_read _).bind fun _ _ _ => Store.follows_ofExcept _

/-- What is selected from a listing is the same in any order. -/
theorem crdFiles_eq_of_perm {files arranged : List Path} (h : arranged.Perm files)
    (hdiffer : files.Pairwise Path.NamesDiffer) (suffix : String) :
    crdFiles suffix arranged = crdFiles suffix files := by
  have hsymm : ∀ {p q : Path}, Path.NamesDiffer p q → Path.NamesDiffer q p :=
    fun hpq name hq hp => hpq name hp hq
  exact crdFiles_congr ((h.pairwise_iff hsymm).mpr hdiffer) hdiffer (fun p => h.mem_iff) suffix

/-! ## The whole build -/

section

variable {Sound : σ → Prop} {later : σ}

theorem sound_of_makeDirectories (h : KeepsNamesApart σ Sound) (hsound : Sound store) {p : Path}
    {a : Unit} (hmade : (FileStore.makeDirectories p : StoreM σ Unit).run store = (.ok a, later)) :
    Sound later := by
  have hlater := h.makeDirectories store p hsound
  rw [hmade] at hlater
  exact hlater

theorem sound_of_readManifest (h : KeepsNamesApart σ Sound) (hsound : Sound store) {p : Path}
    {v : Value} (hread : (readManifest p : StoreM σ Value).run store = (.ok v, later)) :
    Sound later := by
  have hsame := h.read store p
  unfold readManifest at hread
  rw [StoreM.run_bind] at hread
  rcases htext : (FileStore.read p : StoreM σ String).run store with ⟨e | text, after⟩
  · rw [htext] at hread
    cases hread
  · rw [htext] at hread hsame
    simp only [StoreM.run_ofExcept] at hread
    have hlater : later = store := (congrArg Prod.snd hread).symm.trans hsame
    rw [hlater]
    exact hsound

/-- On a store that keeps names apart a build does what it does without an order. -/
theorem run_eq_of_keepsNamesApart (h : KeepsNamesApart σ Sound) (hsound : Sound store)
    (order : Order σ) (config : Config) (request : Request) (now : Instant) :
    order.run (run config request now) store =
      (run config request now : StoreM σ Outcome).run store := by
  show Follows order store _ _
  unfold run
  refine (Store.follows_makeDirectories _).bind fun _ first hfirst => ?_
  have hsound₁ : Sound first := sound_of_makeDirectories h hsound hfirst
  refine (Store.follows_makeDirectories _).bind fun _ second hsecond => ?_
  have hsound₂ : Sound second := sound_of_makeDirectories h hsound₁ hsecond
  refine (follows_readManifest _).bind fun template third hthird => ?_
  have hsound₃ : Sound third := sound_of_readManifest h hsound₂ hthird
  -- the only step that sees the order, and what is made of the files does not
  refine Store.follows_list_bind fun files arranged fourth hlist hperm => ?_
  rw [crdFiles_eq_of_perm hperm (h.list third _ files fourth hsound₃ hlist)]
  refine (Store.follows_mapM (follows_collectCrd _) _ _).bind fun collected _ _ => ?_
  refine (follows_readPermission config).bind fun permission _ _ => ?_
  refine (follows_readDeployment config request.image).bind fun deployment _ _ => ?_
  refine (Store.follows_ofExcept _).bind fun text _ _ => ?_
  exact (Store.follows_write _ _).bind fun _ _ _ => Store.follows_pure _

end

/-! ## In memory and on disk -/

/-- A build has the same result and leaves the same store behind in any two orders. -/
theorem run_eq_run_of_orders (config : Config) (request : Request) (now : Instant) :
    (∀ store : Memory, store.IsMap → ∀ first second : Order Memory,
      first.run (run config request now) store = second.run (run config request now) store) ∧
    (∀ disk : Disk, disk.HasNames → ∀ first second : Order Disk,
      first.run (run config request now) disk = second.run (run config request now) disk) := by
  constructor
  · intro store hmap first second
    rw [run_eq_of_keepsNamesApart Memory.keepsNamesApart hmap first,
      run_eq_of_keepsNamesApart Memory.keepsNamesApart hmap second]
  · intro disk hnames first second
    rw [run_eq_of_keepsNamesApart Disk.keepsNamesApart hnames first,
      run_eq_of_keepsNamesApart Disk.keepsNamesApart hnames second]

/-- The small build in two orders that list its resource definitions differently. -/
theorem run_eq_run_reversed :
    let store : Memory := { smallStore with directories := [⟨"d"⟩] }
    let disk : Disk := store.tree
    let listed {σ : Type} [FileStore (StoreM σ)] (order : Order σ) (s : σ) : Option (List Path) :=
      (order.run (FileStore.list ⟨"d"⟩) s).1.toOption
    let built {σ : Type} [FileStore (StoreM σ)] (order : Order σ) (s : σ) :=
      order.run (run smallConfig smallRequest ⟨0, 0⟩) s
    (store.IsMap ∧ disk.HasNames ∧
      listed (.given Memory) store ≠ listed (.reversed Memory) store ∧
      listed (.given Disk) disk ≠ listed (.reversed Disk) disk) ∧
      built (.given Memory) store = built (.reversed Memory) store ∧
      built (.given Disk) disk = built (.reversed Disk) disk := by
  intro store disk listed built
  have htree : disk.IsTree := by
    apply Disk.isTree_of_entries <;> decide +kernel
  have hnames : disk.HasNames := htree.hasNames
  have hmemory : listed (.given Memory) store ≠ listed (.reversed Memory) store := by
    decide +kernel
  have hdisk : listed (.given Disk) disk ≠ listed (.reversed Disk) disk := by
    decide +kernel
  obtain ⟨hstore, hdisks⟩ := run_eq_run_of_orders smallConfig smallRequest ⟨0, 0⟩
  exact ⟨⟨isMap_smallStore, hnames, hmemory, hdisk⟩, hstore store isMap_smallStore _ _,
    hdisks disk hnames _ _⟩

end OperatorBundle.Build
