import OperatorBundle.CommandLine.Run
import OperatorBundle.Proofs.Build.Footprint

/-!
# What a run of the program tells is what it did

The exit status of a run, what it prints and what it leaves in the tree agree, whatever the words of
the command line and the tree are (`run_accounts`).  A run takes one of six courses (`Course`), and
each part of the account is a case analysis over these.
-/

namespace OperatorBundle.CommandLine

open Build (IsMade IsPut IsRendered Observes Request bundleDir descriptorPath observes_pure
  observes_ofExcept observes_read)
open Calendar (Instant)
open Ending (announcement)
open Store (Disk)
open Store.Disk (Cause Footprint)

variable {disk later : Disk} {now : Instant} {invocation : Invocation} {ending : Ending}

/-! ## What is promised -/

/-- A printed text has a line that announces a version. -/
def announces (output : String) : Bool :=
  (Text.split '\n' output.toList).any ("Generating CSV".toList.isPrefixOf ·)

/-- Nothing was touched, and no version was announced. -/
structure IsIdle (disk later : Disk) (ending : Ending) : Prop where
  tree : later = disk
  output : announces ending.output = false

/-- The configuration file that was asked for is not there, or cannot be read. -/
def Invocation.LacksConfig (disk : Disk) : Invocation → Prop
  | .build (some p) _ => ∃ cause, disk.read p = .error cause
  | _ => False

/-- The configuration that is loaded from a tree. -/
def loaded (asked : Option Path) (disk : Disk) : Except BundleError Config :=
  ((Config.load asked : StoreM Disk Config).run disk).1

/-- The configuration can be loaded and the build that is asked for succeeds. -/
def Invocation.Succeeds (disk : Disk) (now : Instant) (invocation : Invocation) : Prop :=
  ∃ asked request config outcome, invocation = .build asked request ∧
    loaded asked disk = .ok config ∧
    ((Build.run config request now : StoreM Disk Build.Outcome).run disk).1 = .ok outcome

/-- A version was announced, and all that is new lies in the directory of this version or leads to
it.  The directory is there unless the system refused something. -/
structure IsBuildOf (config : Config) (request : Request) (disk later : Disk) (ending : Ending) :
    Prop where
  announcing : announces ending.output = true
  announced : ∃ rest, ending.output = announcement (request.version config) ++ rest
  footprint : Footprint (IsMade config request) (IsPut config request) disk later
  directory : ending.exitCode ≠ 2 → later.isDirectory (bundleDir config request) = true
  exitCode : ending.exitCode ∈ [0, 2, 3, 4, 5]

/-- The last line names the file of the descriptor, which holds the text that the build composed. -/
structure IsWritten (config : Config) (request : Request) (now : Instant) (disk later : Disk)
    (ending : Ending) : Prop where
  output : ending.output = announcement (request.version config) ++
    "✅ Wrote ClusterServiceVersion: " ++ (descriptorPath config request).text ++ "\n"
  descriptor : ∃ text copies before,
    (Build.composed config request now).run disk = (.ok (text, copies), before) ∧
      IsRendered config request now text ∧ later.read (descriptorPath config request) = .ok text

/-- How a run ends, for what it was asked to do on a tree, and the tree that it leaves. -/
structure Accounts (invocation : Invocation) (now : Instant) (disk later : Disk) (ending : Ending) :
    Prop where
  /-- Misuse, an unusable configuration and questions about the program change nothing. -/
  idle : ending.exitCode = 1 ∨ ending.exitCode = 6 ∨ invocation = .help ∨ invocation = .version ∨
    invocation.LacksConfig disk → IsIdle disk later ending
  success : invocation ≠ .help → invocation ≠ .version →
    (ending.exitCode = 0 ↔ invocation.Succeeds disk now)
  written : invocation ≠ .help → invocation ≠ .version → ending.exitCode = 0 →
    ∃ asked request config, invocation = .build asked request ∧ loaded asked disk = .ok config ∧
      IsWritten config request now disk later ending
  /-- A run that fails announces a version at most. -/
  unwritten : ending.exitCode ≠ 0 →
    ending.output = "" ∨ ∃ version, ending.output = announcement version
  build : ∀ asked request config, invocation = .build asked request →
    loaded asked disk = .ok config → IsBuildOf config request disk later ending

/-! ## Announcements -/

/-- An announcement is found, whatever follows. -/
theorem announces_announcement (version : Version) (rest : String) :
    announces (announcement version ++ rest) = true := by
  have hfree : '\n' ∉ "Generating CSV for version: ".toList := by decide +kernel
  have hstart : "Generating CSV for version: ".toList =
      "Generating CSV".toList ++ " for version: ".toList := by
    rw [← String.toList_append]
    rfl
  obtain ⟨part, parts, hlines⟩ :=
    Text.exists_split_append hfree (version.text.toList ++ "\n".toList ++ rest.toList)
  refine List.any_eq_true.mpr ⟨"Generating CSV for version: ".toList ++ part, ?_, ?_⟩
  · unfold announcement
    simp only [String.toList_append, List.append_assoc] at hlines ⊢
    rw [hlines]
    exact List.mem_cons_self
  · rw [List.isPrefixOf_iff_prefix, hstart, List.append_assoc]
    exact List.prefix_append _ _

theorem announces_empty : announces "" = false := by decide +kernel

theorem announces_programVersion : announces programVersion = false := by decide +kernel

theorem announces_helpText : announces helpText = false := by
  unfold announces helpText
  rw [String.toList_join]
  simp only [List.map_cons, List.map_nil, List.flatMap_cons, List.flatMap_nil,
    String.toList_append]
  -- the kernel is slow to spell out a text
  repeat rw [String.toList_ofList]
  decide +kernel

/-! ## Loading the configuration -/

/-- Loading a configuration changes nothing. -/
theorem observes_load (asked : Option Path) :
    Observes (Config.load asked : StoreM Disk Config) := by
  have hsource : Observes (configSource? asked : StoreM Disk (Option Path)) := by
    cases asked with
    | some p => exact observes_pure (some p)
    | none => exact Observes.bind (fun _ => rfl) fun found => observes_pure _
  refine hsource.bind fun source => ?_
  cases source with
  | some p => exact (observes_read p).bind fun text => observes_ofExcept _
  | none => exact observes_pure _

/-- A configuration file that was asked for is needed. -/
theorem load_of_read_eq_error {p : Path} {cause : Cause} (h : disk.read p = .error cause) :
    loaded (some p) disk = .error (cause.blaming p) := by
  have hread : (FileStore.read p : StoreM Disk String).run disk =
      (.error (cause.blaming p), disk) := by
    change ((disk.read p).mapError (Cause.blaming p), disk) = _
    rw [h]
    rfl
  have hload : (Config.load (some p) : StoreM Disk Config) =
      FileStore.read p >>= fun text => MonadExcept.ofExcept (Config.read text) := rfl
  rw [loaded, hload, StoreM.run_bind, hread]

/-! ## Courses -/

/-- An attempt succeeds always, and leaves what the computation leaves. -/
theorem run_attempt {α : Type} (x : StoreM Disk α) (disk : Disk) :
    (attempt x : StoreM Disk (Except BundleError α)).run disk =
      (.ok (x.run disk).1, (x.run disk).2) := by
  unfold attempt
  rw [StoreM.run_tryCatch, map_eq_pure_bind, StoreM.run_bind]
  rcases x.run disk with ⟨e | a, later⟩
  · rfl
  · rfl

/-- The courses that a run can take on a tree, with the tree that each leaves. -/
inductive Course (disk : Disk) (now : Instant) : Invocation → Ending → Disk → Prop where
  | help : Course disk now .help (.told helpText) disk
  | version : Course disk now .version (.told programVersion) disk
  | misuse : Course disk now .misuse .misused disk
  | unconfigured {asked : Option Path} {request : Request} {e : BundleError}
      (hload : loaded asked disk = .error e) :
      Course disk now (.build asked request) (.failed none e) disk
  | stopped {asked : Option Path} {request : Request} {config : Config} {e : BundleError}
      {later : Disk} (hload : loaded asked disk = .ok config)
      (hrun : (Build.run config request now : StoreM Disk Build.Outcome).run disk =
        (.error e, later)) :
      Course disk now (.build asked request) (.failed (some (request.version config)) e) later
  | built {asked : Option Path} {request : Request} {config : Config} {outcome : Build.Outcome}
      {later : Disk} (hload : loaded asked disk = .ok config)
      (hrun : (Build.run config request now : StoreM Disk Build.Outcome).run disk =
        (.ok outcome, later)) :
      Course disk now (.build asked request)
        (.built (request.version config) outcome.descriptorPath) later

/-- Every run takes a course to its end. -/
theorem exists_course (invocation : Invocation) (now : Instant) (disk : Disk) :
    ∃ ending later, (invocation.serve now : StoreM Disk Ending).run disk = (.ok ending, later) ∧
      Course disk now invocation ending later := by
  cases invocation with
  | help => exact ⟨_, _, rfl, .help⟩
  | version => exact ⟨_, _, rfl, .version⟩
  | misuse => exact ⟨_, _, rfl, .misuse⟩
  | build asked request =>
      -- reading the configuration leaves the disk as it is
      have hsame := observes_load asked disk
      rcases hload : ((Config.load asked : StoreM Disk Config).run disk).1 with e | config
      · refine ⟨_, _, ?_, .unconfigured hload⟩
        unfold Invocation.serve
        rw [StoreM.run_bind, run_attempt, hload, hsame]
        rfl
      · rcases hrun : (Build.run config request now : StoreM Disk Build.Outcome).run disk with
          ⟨e | outcome, later⟩
        · refine ⟨_, _, ?_, .stopped hload hrun⟩
          unfold Invocation.serve
          rw [StoreM.run_bind, run_attempt, hload, hsame]
          dsimp only
          rw [StoreM.run_bind, run_attempt, hrun]
          rfl
        · refine ⟨_, _, ?_, .built hload hrun⟩
          unfold Invocation.serve
          rw [StoreM.run_bind, run_attempt, hload, hsame]
          dsimp only
          rw [StoreM.run_bind, run_attempt, hrun]
          rfl

/-- A configuration that could be loaded was not missing. -/
theorem not_lacksConfig {asked : Option Path} {request : Request} {config : Config}
    (hload : loaded asked disk = .ok config) :
    ¬ (Invocation.build asked request).LacksConfig disk := by
  intro hlacks
  cases asked with
  | none => exact hlacks
  | some p =>
      obtain ⟨cause, hread⟩ := hlacks
      rw [load_of_read_eq_error hread] at hload
      cases hload

/-- A failure of a build is none of its configuration, and no misuse. -/
theorem exitCode_of_run_eq_error {config : Config} {request : Request} {e : BundleError}
    (hrun : (Build.run config request now : StoreM Disk Build.Outcome).run disk =
      (.error e, later)) : e.exitCode ∈ [2, 3, 4, 5] := by
  have hconfiguration : e.exitCode ≠ 6 :=
    (Build.behaves_run config request now).exitCode disk e (congrArg Prod.fst hrun)
  cases e with
  | configuration => exact absurd rfl hconfiguration
  | configurationSyntax => exact absurd rfl hconfiguration
  | _ => simp [BundleError.exitCode]

theorem Course.isBuildOf {asked : Option Path} {request : Request} {config : Config}
    (h : Course disk now (.build asked request) ending later)
    (hload : loaded asked disk = .ok config) :
    IsBuildOf config request disk later ending := by
  have hfootprint := (Build.behaves_run config request now).footprint disk
  cases h with
  | unconfigured hload' =>
      rw [hload] at hload'
      cases hload'
  | @stopped _ _ _ e _ hload' hrun =>
      rw [hload] at hload'
      cases hload'
      rw [hrun] at hfootprint
      have houtput : (Ending.failed (some (request.version config)) e).output =
          announcement (request.version config) ++ "" := String.append_empty.symm
      refine ⟨?_, ⟨_, houtput⟩, hfootprint, fun hexit => ?_, ?_⟩
      · rw [houtput]
        exact announces_announcement _ _
      · refine Build.isDirectory_of_run hrun fun e' he => ?_
        cases he
        exact hexit
      · exact List.mem_cons_of_mem 0 (exitCode_of_run_eq_error hrun)
  | @built _ _ _ outcome _ hload' hrun =>
      rw [hload] at hload'
      cases hload'
      rw [hrun] at hfootprint
      have houtput : (Ending.built (request.version config) outcome.descriptorPath).output =
          announcement (request.version config) ++
            ("✅ Wrote ClusterServiceVersion: " ++ outcome.descriptorPath.text ++ "\n") := by
        simp only [Ending.output, String.append_assoc]
      refine ⟨?_, ⟨_, houtput⟩, hfootprint, fun _ => ?_, List.mem_cons_self⟩
      · rw [houtput]
        exact announces_announcement _ _
      · exact Build.isDirectory_of_run hrun fun e' he => nomatch he

/-- What keeps a run from building has no part in a build. -/
theorem IsBuildOf.not_kept {asked : Option Path} {request : Request} {config : Config}
    (h : IsBuildOf config request disk later ending) (hload : loaded asked disk = .ok config) :
    ¬ (ending.exitCode = 1 ∨ ending.exitCode = 6 ∨ Invocation.build asked request = .help ∨
      Invocation.build asked request = .version ∨
      (Invocation.build asked request).LacksConfig disk) := by
  have hcode := h.exitCode
  rintro (hone | hsix | hhelp | hversion | hlacks)
  · rw [hone] at hcode
    simp at hcode
  · rw [hsix] at hcode
    simp at hcode
  · cases hhelp
  · cases hversion
  · exact not_lacksConfig hload hlacks

theorem Course.isIdle (h : Course disk now invocation ending later)
    (hidle : ending.exitCode = 1 ∨ ending.exitCode = 6 ∨ invocation = .help ∨
      invocation = .version ∨ invocation.LacksConfig disk) : IsIdle disk later ending := by
  cases h with
  | help => exact ⟨rfl, announces_helpText⟩
  | version => exact ⟨rfl, announces_programVersion⟩
  | misuse => exact ⟨rfl, announces_empty⟩
  | unconfigured hload => exact ⟨rfl, announces_empty⟩
  | stopped hload hrun =>
      exact absurd hidle (((Course.stopped hload hrun).isBuildOf hload).not_kept hload)
  | built hload hrun =>
      exact absurd hidle (((Course.built hload hrun).isBuildOf hload).not_kept hload)

/-- No failure ends like a success. -/
theorem exitCode_failed_ne_zero (version : Option Version) (e : BundleError) :
    (Ending.failed version e).exitCode ≠ 0 :=
  Nat.ne_of_gt (Nat.lt_of_lt_of_le Nat.two_pos e.two_le_exitCode)

theorem Course.exitCode_eq_zero_iff (h : Course disk now invocation ending later)
    (hhelp : invocation ≠ .help) (hversion : invocation ≠ .version) :
    ending.exitCode = 0 ↔ invocation.Succeeds disk now := by
  cases h with
  | help => exact absurd rfl hhelp
  | version => exact absurd rfl hversion
  | misuse =>
      refine iff_of_false (by decide) ?_
      rintro ⟨_, _, _, _, hbuild, _, _⟩
      cases hbuild
  | unconfigured hload =>
      refine iff_of_false (exitCode_failed_ne_zero _ _) ?_
      rintro ⟨_, _, _, _, hbuild, hload', _⟩
      cases hbuild
      rw [hload] at hload'
      cases hload'
  | stopped hload hrun =>
      refine iff_of_false (exitCode_failed_ne_zero _ _) ?_
      rintro ⟨_, _, _, _, hbuild, hload', hrun'⟩
      cases hbuild
      rw [hload] at hload'
      cases hload'
      rw [hrun] at hrun'
      cases hrun'
  | built hload hrun =>
      exact iff_of_true rfl ⟨_, _, _, _, rfl, hload, congrArg Prod.fst hrun⟩

theorem Course.isWritten (h : Course disk now invocation ending later)
    (hhelp : invocation ≠ .help) (hversion : invocation ≠ .version) (hexit : ending.exitCode = 0) :
    ∃ asked request config, invocation = .build asked request ∧ loaded asked disk = .ok config ∧
      IsWritten config request now disk later ending := by
  cases h with
  | help => exact absurd rfl hhelp
  | version => exact absurd rfl hversion
  | misuse => cases hexit
  | unconfigured hload => exact absurd hexit (exitCode_failed_ne_zero _ _)
  | stopped hload hrun => exact absurd hexit (exitCode_failed_ne_zero _ _)
  | built hload hrun =>
      obtain ⟨text, copies, before, hcomposed, houtcome, hread⟩ :=
        Build.exists_composed_of_run_eq_ok hrun
      refine ⟨_, _, _, rfl, hload, ?_, text, copies, before, hcomposed, ?_, hread⟩
      · rw [houtcome]
        rfl
      · exact Build.isRendered_of_run_composed hcomposed

theorem Course.output_of_exitCode_ne_zero (h : Course disk now invocation ending later)
    (hexit : ending.exitCode ≠ 0) :
    ending.output = "" ∨ ∃ version, ending.output = announcement version := by
  cases h with
  | help => exact absurd rfl hexit
  | version => exact absurd rfl hexit
  | misuse => exact .inl rfl
  | unconfigured hload => exact .inl rfl
  | stopped hload hrun => exact .inr ⟨_, rfl⟩
  | built hload hrun => exact absurd rfl hexit

theorem Course.accounts (h : Course disk now invocation ending later) :
    Accounts invocation now disk later ending where
  idle := h.isIdle
  success := h.exitCode_eq_zero_iff
  written := h.isWritten
  unwritten := h.output_of_exitCode_ne_zero
  build asked request config hbuild hload := by
    subst hbuild
    exact h.isBuildOf hload

/-- Every run, on every tree, comes to an end that accounts for what it did. -/
theorem run_accounts (words : List String) (now : Instant) (disk : Disk) :
    ∃ ending later, (run words now : StoreM Disk Ending).run disk = (.ok ending, later) ∧
      Accounts (.ofWords words) now disk later ending := by
  obtain ⟨ending, later, hrun, hcourse⟩ := exists_course (.ofWords words) now disk
  exact ⟨ending, later, hrun, hcourse.accounts⟩

end OperatorBundle.CommandLine
