import OperatorBundle.Proofs.Build.Confinement
import OperatorBundle.Proofs.Store.Simulation

/-!
# Builds on disk and in memory

A build that is tried on a memory does what the build on disk does.  From a tree and a memory with
the same files and directories both builds end with the same outcome or the same failure, and leave
the same files and directories behind, unless the system refuses something on disk
(`mirrors_run`).  What is asked for are plain paths and a directory of resource definitions that is
not the bundle itself: a file copied onto itself is emptied on disk and stays as it is in memory.
-/

namespace OperatorBundle.Build

open Calendar (Instant)
open Store

/-- The paths that a build is given are plain. -/
structure HasPlainPaths (config : Config) (request : Request) : Prop where
  outputDir : request.outputDir.IsPlain
  template : (Path.mk config.inputs.template).IsPlain
  crdDir : (Path.mk config.inputs.crdDir).IsPlain
  clusterRole : (Path.mk config.inputs.clusterRole).IsPlain
  operator : (Path.mk config.inputs.operator).IsPlain

variable {config : Config} {request : Request} {before : Disk → Prop} {p directory : Path}

/-! ## Steps of a build -/

theorem simulates_readManifest (hp : p.IsPlain) :
    Simulates before Eq before (readManifest p) (readManifest p) := by
  refine (simulates_read hp).bind fun text _ hsame => ?_
  subst hsame
  exact simulates_ofExcept (Manifest.read p.text text)

/-- A resource definition of another directory is copied and summarized. -/
theorem simulates_collectCrd {source : Path} {name : String} (hsource : source.IsPlain)
    (hdirectory : directory.IsPlain) (hname : Path.IsName name)
    (hne : source ≠ directory.join ⟨name⟩) :
    Simulates (Disk.Has directory) Eq (Disk.Has directory) (collectCrd directory (name, source))
      (collectCrd directory (name, source)) := by
  refine (simulates_copy hsource hdirectory hname hne).bind fun _ _ _ => ?_
  refine (simulates_readManifest hsource).bind fun document _ hsame => ?_
  subst hsame
  refine (simulates_ofExcept (OwnedCrd.ofDocument source.text document)).bind fun crd _ hsame => ?_
  subst hsame
  exact simulates_pure rfl

theorem simulates_readPermission (hp : (Path.mk config.inputs.clusterRole).IsPlain) :
    Simulates before Eq before (readPermission config) (readPermission config) := by
  refine (simulates_readManifest hp).bind fun role _ hsame => ?_
  subst hsame
  exact simulates_ofExcept _

theorem simulates_readDeployment (hp : (Path.mk config.inputs.operator).IsPlain) (image : String) :
    Simulates before Eq before (readDeployment config image) (readDeployment config image) := by
  refine (simulates_read hp).bind fun text _ hsame => ?_
  subst hsame
  exact simulates_ofExcept _

/-- The resource definitions among listed files keep their names. -/
theorem eq_join_of_mem_crdFiles {a b : List Path} (h : SameListing directory a b)
    {suffix name : String} (hfile : (name, p) ∈ crdFiles suffix a) :
    Path.IsName name ∧ p = directory.join ⟨name⟩ := by
  rcases mem_crdFiles.mp hfile with ⟨hp, hname, _⟩
  rcases h.inside p hp with ⟨given, hgiven, rfl⟩
  rw [Path.fileName?_join directory hgiven] at hname
  exact ⟨Option.some.inj hname ▸ hgiven, by rw [Option.some.inj hname]⟩

/-! ## The whole build -/

/-- A build on a tree and one on its mirror end alike. -/
theorem simulates_run (hpaths : HasPlainPaths config request)
    (hparts : HasPlainParts config request)
    (hapart : bundleDir config request ≠ ⟨config.inputs.crdDir⟩) (now : Instant) :
    Simulates before Eq (fun _ => True) (run config request now) (run config request now) := by
  have hbundle : (request.outputDir.join ⟨(request.version config).directoryName⟩).IsPlain :=
    hpaths.outputDir.join hparts.isName_version
  refine (simulates_makeDirectories hpaths.outputDir).bind fun _ _ _ => ?_
  refine (simulates_makeDirectories hbundle).bind fun _ _ _ => ?_
  refine (simulates_readManifest hpaths.template).bind fun template _ hsame => ?_
  subst hsame
  -- the listings may differ in order; what is selected from them is sorted
  refine (simulates_list hpaths.crdDir).bind fun files others hlisting => ?_
  rw [← crdFiles_congr hlisting.left hlisting.right hlisting.mem_iff config.inputs.crdSuffix]
  refine (Simulates.mapM fun file hfile => ?_).bind fun collected _ hsame => ?_
  · rcases file with ⟨name, source⟩
    rcases eq_join_of_mem_crdFiles hlisting hfile with ⟨hname, rfl⟩
    refine simulates_collectCrd (hpaths.crdDir.join hname) hbundle hname fun hself => ?_
    -- with the same name behind them two directories still differ
    have hjoin := congrArg Path.components hself
    rw [Path.components_join _ hname, Path.components_join _ hname] at hjoin
    exact hapart (hbundle.eq_of_components hpaths.crdDir (List.append_cancel_right hjoin).symm)
  subst hsame
  refine (simulates_readPermission hpaths.clusterRole).bind fun permission _ hsame => ?_
  subst hsame
  refine (simulates_readDeployment hpaths.operator request.image).bind fun deployment _ hsame => ?_
  subst hsame
  refine (simulates_ofExcept _).bind fun text _ hsame => ?_
  subst hsame
  refine (simulates_write (hbundle.join hparts.isName_descriptor) text).bind fun _ _ _ => ?_
  exact simulates_pure rfl

/-- From a tree and a memory that mirrors it a build ends with the same result, and the memory mirrors
the tree again, unless the system refuses something. -/
theorem mirrors_run (hpaths : HasPlainPaths config request) (hparts : HasPlainParts config request)
    (hapart : bundleDir config request ≠ ⟨config.inputs.crdDir⟩) (now : Instant) {disk : Disk}
    {store : Memory} (hmirrors : Mirrors disk store) :
    let onDisk := (run config request now : StoreM Disk Outcome).run disk
    let inMemory := (run config request now : StoreM Memory Outcome).run store
    (∀ words, onDisk.1 ≠ .error (.io words)) →
      inMemory.1 = onDisk.1 ∧ Mirrors onDisk.2 inMemory.2 := by
  intro onDisk inMemory haccepted
  have hsimulates : Simulates (fun _ => True) Eq (fun _ => True) (run config request now)
      (run config request now) := simulates_run hpaths hparts hapart now
  have halike : EndAlike Eq (fun _ => True) onDisk inMemory :=
    hsimulates disk store trivial hmirrors
  generalize onDisk = left, inMemory = right at halike haccepted
  cases halike with
  | refused words later ended => exact absurd rfl (haccepted words)
  | failed e h => exact ⟨rfl, h⟩
  | succeeded hsame _ h => exact ⟨congrArg Except.ok hsame.symm, h⟩

/-- The small build succeeds on a tree and in memory, and both hold the same files after it. -/
theorem mirrors_small :
    let store : Memory := { smallStore with directories := [⟨"d"⟩] }
    let onDisk := (run smallConfig smallRequest ⟨0, 0⟩ : StoreM Disk Outcome).run store.tree
    let inMemory := (run smallConfig smallRequest ⟨0, 0⟩ : StoreM Memory Outcome).run store
    (HasPlainPaths smallConfig smallRequest ∧ HasPlainParts smallConfig smallRequest ∧
      bundleDir smallConfig smallRequest ≠ ⟨smallConfig.inputs.crdDir⟩ ∧
      Mirrors store.tree store ∧ onDisk.1.isOk = true) ∧
      inMemory.1 = onDisk.1 ∧ Mirrors onDisk.2 inMemory.2 := by
  intro store
  have hpaths : HasPlainPaths smallConfig smallRequest := by
    constructor <;> decide +kernel
  have hparts : HasPlainParts smallConfig smallRequest := by
    constructor <;> decide +kernel
  have hapart : bundleDir smallConfig smallRequest ≠ ⟨smallConfig.inputs.crdDir⟩ := by
    decide +kernel
  have htree : store.tree.IsTree := by
    apply Disk.isTree_of_entries <;> decide +kernel
  have hmirrors : Mirrors store.tree store :=
    mirrors_tree isMap_smallStore (by decide +kernel) (by decide +kernel) htree
  have hok : ((run smallConfig smallRequest ⟨0, 0⟩ : StoreM Disk Outcome).run store.tree).1.isOk =
      true := by
    decide +kernel
  have haccepted : ∀ words, ((run smallConfig smallRequest ⟨0, 0⟩ : StoreM Disk Outcome).run
      store.tree).1 ≠ .error (.io words) := by
    intro words hrefused
    rw [hrefused] at hok
    cases hok
  exact ⟨⟨hpaths, hparts, hapart, hmirrors, hok⟩,
    mirrors_run hpaths hparts hapart ⟨0, 0⟩ hmirrors haccepted⟩

end OperatorBundle.Build
