import OperatorBundle.Proofs.Build.Repetition

/-!
# Builds keep to their bundles

The directory of a bundle is named for its version, and a build changes no file but those that stand
in this directory itself.  All that it takes is that the parts of the names hold no slash: whatever
they are otherwise, a version and the name of a descriptor are ordinary names, for there is a hyphen
in both.  Of two bundles with different versions neither touches the other.
-/

namespace OperatorBundle

/-! ## Versions -/

theorem Version.toList_derive (base count hash : String) :
    (Version.derive base count hash).text.toList =
      base.toList ++ '.' :: (count.toList ++ '-' :: hash.toList) := by
  simp [Version.derive]

theorem toList_descriptorFileName (operator : String) (version : Version) :
    (descriptorFileName operator version).toList =
      operator.toList ++ '.' :: 'v' :: (version.text.toList ++
        ".clusterserviceversion.yaml".toList) := by
  simp [descriptorFileName, publishedName]

/-- What holds a hyphen and no slash is an ordinary name. -/
theorem Path.isName_of_hyphen {name : String} (hhyphen : '-' ∈ name.toList)
    (hslash : '/' ∉ name.toList) : Path.IsName name := by
  refine ⟨fun h => ?_, hslash, fun h => ?_, fun h => ?_⟩
  · rw [h] at hhyphen
    exact List.not_mem_nil hhyphen
  · rw [h] at hhyphen
    exact absurd hhyphen (by decide)
  · rw [h] at hhyphen
    exact absurd hhyphen (by decide)

/-- The first hyphen ends the count, so the count and the hash can be read off a version. -/
theorem Version.derive_inj {base count hash count' hash' : String} (h : '-' ∉ count.toList)
    (h' : '-' ∉ count'.toList) (hsame : derive base count hash = derive base count' hash') :
    count = count' ∧ hash = hash' := by
  have htext := congrArg (fun version => version.text.toList) hsame
  simp only [toList_derive] at htext
  have hrest := (List.cons.inj (List.append_cancel_left htext)).2
  -- without a hyphen in it the count is what stands before the first one
  have hparts := congrArg (Text.split '-') hrest
  rw [Text.split_append, Text.split_append, Text.split_of_not_mem h,
    Text.split_of_not_mem h'] at hparts
  have hcount : count.toList = count'.toList := (List.cons.inj hparts).1
  rw [hcount] at hrest
  exact ⟨String.toList_inj.mp hcount,
    String.toList_inj.mp (List.cons.inj (List.append_cancel_left hrest)).2⟩

namespace Build

open Calendar (Instant)
open Store (Memory)

/-- The parts of the names that a build makes hold no slash. -/
structure HasPlainParts (config : Config) (request : Request) : Prop where
  name : '/' ∉ config.bundle.name.toList
  versionBase : '/' ∉ config.bundle.versionBase.toList
  commitCount : '/' ∉ request.commitCount.toList
  commitHash : '/' ∉ request.commitHash.toList

/-- A build has changed nothing outside its bundle. -/
structure IsConfined (config : Config) (request : Request) (initial final : Memory)
    (result : Except BundleError Outcome) : Prop where
  /-- The directory of the bundle stands in the output directory itself. -/
  stands : Memory.standsIn request.outputDir (bundleDir config request) = true
  versionDir_eq : ∀ outcome, result = .ok outcome → outcome.versionDir = bundleDir config request
  /-- What shows another text than before, or did not show any, stands in the directory of the
  bundle. -/
  changed : ∀ p, final.text? p ≠ initial.text? p →
    Memory.standsIn (bundleDir config request) p = true
  kept : ∀ p, (initial.text? p).isSome → (final.text? p).isSome
  directories : ∀ p, final.HasDirectory p → initial.HasDirectory p ∨
    ∃ d ∈ request.outputDir.ancestors ++ (bundleDir config request).ancestors,
      d.components = p.components

variable {config other : Config} {request next : Request}

/-! ## Names -/

theorem HasPlainParts.isName_version (h : HasPlainParts config request) :
    Path.IsName (request.version config).text := by
  apply Path.isName_of_hyphen
  · simp [Request.version, Version.toList_derive]
  · have hparts := And.intro h.versionBase (And.intro h.commitCount h.commitHash)
    simpa [Request.version, Version.toList_derive] using hparts

theorem HasPlainParts.isName_descriptor (h : HasPlainParts config request) :
    Path.IsName (descriptorFileName config.bundle.name (request.version config)) := by
  apply Path.isName_of_hyphen
  · simp [toList_descriptorFileName, Request.version, Version.toList_derive]
  · have hparts := And.intro h.name h.isName_version.2.1
    simpa [toList_descriptorFileName] using hparts

/-- The directory of a bundle is the output directory and one name more. -/
theorem HasPlainParts.components_bundleDir (h : HasPlainParts config request) :
    (bundleDir config request).components =
      request.outputDir.components ++ [.name (request.version config).text] :=
  Path.components_join request.outputDir h.isName_version

theorem HasPlainParts.components_descriptorPath (h : HasPlainParts config request) :
    (descriptorPath config request).components = (bundleDir config request).components ++
      [.name (descriptorFileName config.bundle.name (request.version config))] :=
  Path.components_join _ h.isName_descriptor

/-- Different versions have different directories. -/
theorem HasPlainParts.bundleDir_ne (h : HasPlainParts config request)
    (h' : HasPlainParts other next) (hne : next.version other ≠ request.version config) :
    (bundleDir other next).components ≠ (bundleDir config request).components := by
  intro hsame
  rw [h.components_bundleDir, h'.components_bundleDir] at hsame
  have hname := (List.cons.inj (List.append_inj_right' hsame rfl)).1
  exact hne (congrArg Version.mk (Path.Component.name.inj hname))

/-! ## Files -/

/-- A file that a build may not write shows after it what it showed before. -/
theorem text?_run_of_not_isWritten (config : Config) (request : Request) (now : Instant)
    {store : Memory} (hmap : store.IsMap) {p : Path}
    (hp : ¬ IsWritten config request (selection config store) p) :
    ((run config request now : StoreM Memory Outcome).run store).2.text? p = store.text? p := by
  rw [run_eq config request now hmap]
  apply Memory.text?_writeAll_of_ne
  intro write hwrite hsame
  exact hp ((isWritten_congr hsame).mp (isWritten_of_mem_effect now hwrite))

/-- A build changes no file that does not stand in the directory of its bundle. -/
theorem HasPlainParts.text?_run (h : HasPlainParts config request) (now : Instant) {store : Memory}
    (hmap : store.IsMap) {p : Path}
    (hp : ∀ name, p.components ≠ (bundleDir config request).components ++ [.name name]) :
    ((run config request now : StoreM Memory Outcome).run store).2.text? p = store.text? p := by
  apply text?_run_of_not_isWritten config request now hmap
  intro hwritten
  rcases exists_components_of_isWritten h.isName_descriptor
    (fun _ hfile => isName_of_mem_selection hfile) hwritten with ⟨name, hname⟩
  exact hp name hname

/-- Of two directories at the same depth, what lies in the first, however far inside, does not stand
in the second. -/
theorem components_ne_of_beside {a b p : Path} (hdepth : a.components.length = b.components.length)
    (hne : a.components ≠ b.components) (hp : a.components <+: p.components) (name : String) :
    p.components ≠ b.components ++ [.name name] := by
  intro hsame
  rw [hsame] at hp
  have hbegins := List.prefix_of_prefix_length_le hp (List.prefix_append _ _)
    (Nat.le_of_eq hdepth)
  exact hne (hbegins.eq_of_length hdepth)

/-! ## The result -/

/-- Every build keeps to its bundle, whether it succeeds or fails; and it leaves the bundles of other
versions in the same output directory as they are. -/
theorem isConfined_run (config : Config) (request : Request) (now : Instant) {store : Memory}
    (hmap : store.IsMap) (hparts : HasPlainParts config request) :
    let ran := (run config request now : StoreM Memory Outcome).run store
    IsConfined config request store ran.2 ran.1 ∧
    ∀ other next, HasPlainParts other next → next.outputDir = request.outputDir →
      other.bundle.versionBase = config.bundle.versionBase →
      '-' ∉ request.commitCount.toList → '-' ∉ next.commitCount.toList →
      (next.commitCount, next.commitHash) ≠ (request.commitCount, request.commitHash) →
      (bundleDir other next).components ≠ (bundleDir config request).components ∧
      ∀ p, (bundleDir other next).components <+: p.components →
        ran.2.text? p = store.text? p := by
  intro ran
  have hran : ran = ((effect config request now store).1,
      (prepared config request store).writeAll (effect config request now store).2) :=
    run_eq config request now hmap
  constructor
  · exact {
      stands := Memory.standsIn_of_components hparts.components_bundleDir
      versionDir_eq := by
        intro outcome hok
        rw [hran] at hok
        rcases effect_eq_ok hok with ⟨_, _, _, _, _, _, rfl, _⟩
        rfl
      changed := by
        intro p hp
        refine Decidable.byContradiction fun hstands => hp ?_
        exact hparts.text?_run now hmap fun _ hname => hstands (Memory.standsIn_of_components hname)
      kept := by
        intro p hp
        rw [hran]
        exact Memory.isSome_text?_writeAll _ hp
      directories := by
        intro p hp
        rw [hran, hasDirectory_writeAll_prepared] at hp
        rcases hp with hp | ⟨d, hd, _, hsame⟩
        · exact Or.inl hp
        · exact Or.inr ⟨d, hd, hsame⟩ }
  · intro other next hnext houtput hbase hcount hcount' hne
    -- versions are told apart by count and hash, and directories by versions
    have hversion : next.version other ≠ request.version config := by
      intro hsame
      rw [Request.version, Request.version, hbase] at hsame
      rcases Version.derive_inj hcount' hcount hsame with ⟨hcounts, hhashes⟩
      exact hne (by rw [hcounts, hhashes])
    have hdir := hparts.bundleDir_ne hnext hversion
    have hdepth : (bundleDir other next).components.length =
        (bundleDir config request).components.length := by
      rw [hnext.components_bundleDir, hparts.components_bundleDir, houtput, List.length_append,
        List.length_append, List.length_singleton, List.length_singleton]
    exact ⟨hdir, fun p hp =>
      hparts.text?_run now hmap (components_ne_of_beside hdepth hdir hp)⟩

/-- The small build beside a bundle of the next commit. -/
theorem isConfined_small :
    let next := { smallRequest with commitCount := "3" }
    let store : Memory :=
      { files := (⟨"out/0.1.3-b/a.y"⟩, "a later copy") :: smallStore.files
        directories := [⟨"out"⟩, ⟨"out/0.1.3-b"⟩] }
    let ran := (run smallConfig smallRequest ⟨0, 0⟩ : StoreM Memory Outcome).run store
    (store.IsMap ∧ HasPlainParts smallConfig smallRequest ∧ HasPlainParts smallConfig next) ∧
      IsConfined smallConfig smallRequest store ran.2 ran.1 ∧
      (bundleDir smallConfig next).components ≠
        (bundleDir smallConfig smallRequest).components ∧
      ran.2.text? ⟨"out/0.1.3-b/a.y"⟩ = some "a later copy" := by
  intro next store ran
  have hmap : store.IsMap := by
    unfold Memory.IsMap
    decide +kernel
  have hparts : HasPlainParts smallConfig smallRequest := by
    constructor <;> decide +kernel
  have hnext : HasPlainParts smallConfig next := by
    constructor <;> decide +kernel
  rcases isConfined_run smallConfig smallRequest ⟨0, 0⟩ hmap hparts with ⟨hconfined, hbeside⟩
  rcases hbeside smallConfig next hnext rfl rfl (by decide +kernel) (by decide +kernel)
    (by decide +kernel) with ⟨hdir, hfiles⟩
  exact ⟨⟨hmap, hparts, hnext⟩, hconfined, hdir, hfiles _ (by decide +kernel)⟩

end Build

end OperatorBundle
