import OperatorBundle.Proofs.Manifest.Source
import OperatorBundle.Proofs.Yaml.Alter

/-!
# What a template must have

A template can be filled in if it meets four conditions.  `Descriptor.assemble_decided` says that
these decide, in their order: with all of them met a descriptor is assembled, and else the first that
is not met is reported, with the path at which it asks for something.  No other report is made.
-/

namespace OperatorBundle

open Yaml (Value Entries Step)

namespace Manifest

/-! ## Conditions -/

/-- What is asked of the value at a path. -/
structure Condition where
  path : String
  accepts : Option Value → Bool

/-- Does a document have what is asked? -/
def Condition.isMet (condition : Condition) (document : Value) : Bool :=
  condition.accepts (document.lookup? condition.path)

/-- Is a mapping found, with tags or without? -/
def isMapping (found : Option Value) : Bool :=
  (found.bind (·.asMapping?)).isSome

/-- Is a mapping found, null, or nothing? -/
def isRoom (found : Option Value) : Bool :=
  found.all fun v => v.isNull || v.asMapping?.isSome

/-! ## Reporting what is not met -/

/-- A result that was reached because all checks were passed, or else reports the first one that was
not, by its path. -/
def Reports {α : Type} (source : String) (checks : List (String × Bool))
    (result : Except BundleError α) : Prop :=
  match checks.find? (!·.2) with
  | some (path, _) => result = .error (.missingField source path)
  | none => ∃ a, result = .ok a

section

variable {α β : Type} {source path : String} {checks : List (String × Bool)}

theorem reports_ok (a : α) : Reports source [] (.ok a) := ⟨a, rfl⟩

/-- The checks of one step come before those of the next. -/
theorem Reports.bind {x : Except BundleError α} {f : α → Except BundleError β}
    {later : List (String × Bool)} (hx : Reports source checks x)
    (hf : ∀ a, x = .ok a → Reports source later (f a)) :
    Reports source (checks ++ later) (x >>= f) := by
  unfold Reports at hx ⊢
  rw [List.find?_append]
  cases hfirst : checks.find? (!·.2) with
  | some check =>
      rw [hfirst] at hx
      rw [show x = _ from hx]
      rfl
  | none =>
      rw [hfirst] at hx
      rcases hx with ⟨a, rfl⟩
      exact hf a rfl

/-- An outcome is a result just if all checks pass. -/
theorem Reports.ok_iff {result : Except BundleError α} (h : Reports source checks result) :
    (∃ a, result = .ok a) ↔ checks.find? (!·.2) = none := by
  unfold Reports at h
  split at h
  · rename_i hfirst
    rw [h, hfirst]
    constructor
    · rintro ⟨a, ha⟩
      cases ha
    · intro hnone
      cases hnone
  · rename_i hnone
    exact ⟨fun _ => hnone, fun _ => h⟩

/-- An outcome fails with the first check that does not pass. -/
theorem Reports.error_iff {result : Except BundleError α} (h : Reports source checks result)
    {e : BundleError} :
    result = .error e ↔ ∃ check, checks.find? (!·.2) = some check ∧ e = .missingField source check.1
    := by
  unfold Reports at h
  split at h
  · rename_i path passed hfirst
    rw [h, hfirst]
    constructor
    · intro he
      exact ⟨(path, passed), rfl, (Except.error.inj he).symm⟩
    · rintro ⟨check, hcheck, rfl⟩
      cases hcheck
      rfl
  · rename_i hnone
    obtain ⟨a, rfl⟩ := h
    rw [hnone]
    constructor
    · intro he
      cases he
    · rintro ⟨check, hcheck, _⟩
      cases hcheck

/-- What is reported is missing in the document. -/
theorem Reports.names {result : Except BundleError α} (h : Reports source checks result) :
    Names source result := by
  intro e he
  obtain ⟨_, _, rfl⟩ := h.error_iff.mp he
  rfl

/-- What is demanded must be found. -/
theorem reports_demand (found : Option α) :
    Reports source [(path, found.isSome)] (demand source path found) := by
  cases found with
  | none => rfl
  | some a => exact ⟨a, rfl⟩

end

/-! ## Changing a mapping -/

section

variable {root v : Value} {path key source : String} {steps : List Step}
  {change : Entries → Except BundleError Entries}

/-- What is changed is the mapping some steps away, and nothing if there is none. -/
theorem updateMapping_eq (hpath : Yaml.Path.steps? path = some steps) :
    updateMapping root path source change =
      demand source path ((root.follow? steps).bind (·.asMapping?)) >>= fun entries =>
        change entries >>= fun changed =>
          pure (root.alter (Value.mapEntries fun _ => changed) steps) := by
  have hassign (new : Value) : root.assign? path new = root.replace? new steps := by
    rw [Value.assign?, hpath]
    rfl
  unfold updateMapping requireMapping require assign
  simp only [Value.lookup?_eq_follow? root hpath, hassign]
  cases hold : root.follow? steps with
  | none => rfl
  | some old =>
      rw [Option.bind_some]
      cases hentries : old.asMapping? with
      | none => rfl
      | some entries =>
          simp only [demand, ok_bind]
          cases change entries with
          | error e => rfl
          | ok changed =>
              rw [ok_bind, ok_bind, ← Value.mapEntries_eq hentries fun _ => changed,
                Value.replace?_eq_alter hold]
              rfl

/-- A mapping at the end of a path is changed, and nothing else. -/
theorem alter_of_updateMapping (hpath : Yaml.Path.steps? path = some steps)
    (h : updateMapping root path source change = .ok v) :
    ∃ entries changed, (root.follow? steps).bind (·.asMapping?) = some entries ∧
      change entries = .ok changed ∧
      v = root.alter (Value.mapEntries fun _ => changed) steps := by
  rw [updateMapping_eq hpath] at h
  rcases bind_eq_ok_iff.mp h with ⟨entries, hentries, h⟩
  rcases bind_eq_ok_iff.mp h with ⟨changed, hchanged, h⟩
  exact ⟨entries, changed, demand_eq_ok_iff.mp hentries, hchanged, (Except.ok.inj h).symm⟩

/-- Where the change succeeds it may be taken for one that always does. -/
theorem eq_alter_of_updateMapping (hpath : Yaml.Path.steps? path = some steps)
    (h : updateMapping root path source change = .ok v) {total : Entries → Entries}
    (htotal : ∀ entries changed, change entries = .ok changed → changed = total entries) :
    v = root.alter (Value.mapEntries total) steps := by
  rcases alter_of_updateMapping hpath h with ⟨entries, changed, hentries, hchanged, rfl⟩
  rcases Option.bind_eq_some_iff.mp hentries with ⟨old, hold, hentries⟩
  refine Value.alter_congr hold ?_
  rw [Value.mapEntries_eq hentries, Value.mapEntries_eq hentries, htotal entries changed hchanged]

/-- What is made where it is missing must be a mapping where it is not. -/
theorem ensureMapping_eq (entries : Entries) (key source path : String)
    (inner : Entries → Entries) :
    ensureMapping entries key source path inner =
      if isRoom (entries.get? key) then .ok (entries.ensure key inner)
      else .error (.missingField source path) := by
  unfold ensureMapping isRoom Entries.ensure
  cases entries.get? key with
  | none => rfl
  | some v =>
      cases hnull : v.isNull with
      | true => simp [Entries.ensured, hnull]
      | false =>
          cases hes : v.asMapping? with
          | none => simp [hnull, hes, demand, bind, Except.bind]
          | some es =>
              simp [Entries.ensured, hnull, hes, demand, Value.mapEntries_eq hes, Functor.map,
                Except.map]

/-- A mapping that is ensured is changed, or made. -/
theorem eq_ensure_of_ensureMapping {entries changed : Entries} {inner : Entries → Entries}
    (h : ensureMapping entries key source path inner = .ok changed) :
    changed = entries.ensure key inner := by
  rw [ensureMapping_eq] at h
  split at h
  · exact (Except.ok.inj h).symm
  · cases h

/-- The mapping is asked for first, and then what the change asks for. -/
theorem reports_updateMapping {checks : List (String × Bool)}
    (hpath : Yaml.Path.steps? path = some steps)
    (h : ∀ entries, (root.follow? steps).bind (·.asMapping?) = some entries →
      Reports source checks (change entries)) :
    Reports source ((path, isMapping (root.follow? steps)) :: checks)
      (updateMapping root path source change) := by
  rw [updateMapping_eq hpath]
  refine (reports_demand _).bind fun entries hentries => ?_
  have hchange := h entries (demand_eq_ok_iff.mp hentries)
  rw [← List.append_nil checks]
  exact hchange.bind fun changed _ => reports_ok _

/-- A mapping that is there in any case has no part in the checks. -/
theorem reports_updateMapping_of_isMapping {checks : List (String × Bool)}
    (hpath : Yaml.Path.steps? path = some steps) (hmapping : isMapping (root.follow? steps) = true)
    (h : ∀ entries, (root.follow? steps).bind (·.asMapping?) = some entries →
      Reports source checks (change entries)) :
    Reports source checks (updateMapping root path source change) := by
  have hchecked := reports_updateMapping hpath h
  rw [hmapping] at hchecked
  exact hchecked

/-- A mapping can be ensured where there is room for it. -/
theorem reports_ensureMapping {entries : Entries} {inner : Entries → Entries} :
    Reports source [(path, isRoom (entries.get? key))]
      (ensureMapping entries key source path inner) := by
  rw [ensureMapping_eq]
  cases isRoom (entries.get? key) with
  | true => exact ⟨_, rfl⟩
  | false => rfl

end

/-! ## The way to a mapping -/

section

variable {root v : Value} {path key source : String} {outer below : List Step}
  {change : Entries → Except BundleError Entries}

/-- What holds something under a key is a mapping. -/
theorem isMapping_of_found {found : Value} (h : v.follow? (outer ++ .key key :: below) = some found) :
    isMapping (v.follow? outer) = true := by
  rw [Value.follow?_append] at h
  rcases Option.bind_eq_some_iff.mp h with ⟨w, hw, h⟩
  rcases Option.bind_eq_some_iff.mp h with ⟨child, hchild, _⟩
  rcases Option.bind_eq_some_iff.mp hchild with ⟨entries, hentries, _⟩
  rw [isMapping, hw, Option.bind_some, hentries]
  rfl

/-- What has a mapping below it is one. -/
theorem isMapping_of_below (h : isMapping (v.follow? (outer ++ .key key :: below)) = true) :
    isMapping (v.follow? outer) = true := by
  rcases Option.isSome_iff_exists.mp h with ⟨_, h⟩
  rcases Option.bind_eq_some_iff.mp h with ⟨_, hfound, _⟩
  exact isMapping_of_found hfound

/-- A mapping in which something is changed is still one. -/
theorem isMapping_updateMapping (hpath : Yaml.Path.steps? path = some (outer ++ .key key :: below))
    (h : updateMapping root path source change = .ok v) :
    isMapping (v.follow? outer) = isMapping (root.follow? outer) := by
  rcases alter_of_updateMapping hpath h with ⟨_, _, _, _, rfl⟩
  rw [Value.alter_append, Value.follow?_alter]
  cases root.follow? outer with
  | none => rfl
  | some w =>
      rw [Option.map_some, isMapping, Option.bind_some, Value.alter_key,
        Value.asMapping?_mapEntries, Option.isSome_map]
      rfl

/-- What lies under another key is as it was. -/
theorem follow?_updateMapping_of_ne (outer : List Step) {other : String}
    (hpath : Yaml.Path.steps? path = some (outer ++ .key key :: below))
    (h : updateMapping root path source change = .ok v) (hne : key ≠ other) (steps : List Step) :
    v.follow? (outer ++ .key other :: steps) = root.follow? (outer ++ .key other :: steps) := by
  rcases alter_of_updateMapping hpath h with ⟨_, _, _, _, rfl⟩
  exact Value.follow?_alter_of_ne (fun hsame => hne (Step.key.inj hsame)) _ outer below steps root

end

/-- The fields of a mapping are found one step further. -/
theorem get?_eq_follow? {v : Value} {steps : List Step} {entries : Entries}
    (h : (v.follow? steps).bind (·.asMapping?) = some entries) (key : String) :
    entries.get? key = v.follow? (steps ++ [.key key]) := by
  rcases Option.bind_eq_some_iff.mp h with ⟨w, hw, hentries⟩
  rw [Value.follow?_append, hw, Option.bind_some, Value.follow?, Value.child?, hentries]
  exact (Option.bind_fun_some _).symm

end Manifest

namespace Descriptor

open Manifest (Condition Reports isMapping isRoom)

/-- The way to the first deployment. -/
abbrev slotSteps : List Step :=
  [.key "spec", .key "install", .key "spec", .key "deployments", .index 0]

/-- The way to the deployments and the permissions. -/
abbrev installSteps : List Step := [.key "spec", .key "install", .key "spec"]

theorem steps?_deploymentPath : Yaml.Path.steps? deploymentPath = some slotSteps := by decide

theorem steps?_install : Yaml.Path.steps? "spec.install.spec" = some installSteps := by decide

theorem steps?_spec : Yaml.Path.steps? "spec" = some [.key "spec"] := by decide

theorem steps?_definitions : Yaml.Path.steps? "spec.customresourcedefinitions" =
    some [.key "spec", .key "customresourcedefinitions"] := by decide

theorem steps?_metadata : Yaml.Path.steps? "metadata" = some [.key "metadata"] := by decide

theorem steps?_annotations : Yaml.Path.steps? "metadata.annotations" =
    some [.key "metadata", .key "annotations"] := by decide

/-- What a template must have, in the order in which it is asked for. -/
def conditions : List Condition :=
  [⟨"spec.install.spec.deployments[0]", isMapping⟩, ⟨"spec.customresourcedefinitions", isRoom⟩,
    ⟨"metadata", isMapping⟩, ⟨"metadata.annotations", isRoom⟩]

/-- The conditions decide, in their order: the first deployment lies in all mappings that are asked for
before the resource definitions, and no change takes away what a later one needs. -/
theorem reports_assemble (d : Descriptor) (source : String) (template : Value) :
    Reports source (conditions.map fun condition => (condition.path, condition.isMet template))
      (d.assemble source template) := by
  have hchecks : conditions.map (fun condition => (condition.path, condition.isMet template)) =
      [(deploymentPath, isMapping (template.follow? slotSteps))] ++ ([] ++
        ([("spec.customresourcedefinitions",
            isRoom (template.follow? [.key "spec", .key "customresourcedefinitions"]))] ++
          [("metadata", isMapping (template.follow? [.key "metadata"])),
            ("metadata.annotations",
              isRoom (template.follow? [.key "metadata", .key "annotations"]))])) := by
    rw [← Value.lookup?_eq_follow? template steps?_deploymentPath,
      ← Value.lookup?_eq_follow? template steps?_definitions,
      ← Value.lookup?_eq_follow? template steps?_metadata,
      ← Value.lookup?_eq_follow? template steps?_annotations]
    rfl
  rw [hchecks]
  refine Reports.bind (Manifest.reports_updateMapping steps?_deploymentPath fun _ _ => Manifest.reports_ok _)
    fun first hfirst => ?_
  have hslot : isMapping (template.follow? slotSteps) = true := by
    rcases Manifest.alter_of_updateMapping steps?_deploymentPath hfirst with ⟨_, _, hentries, _, _⟩
    exact Option.isSome_of_eq_some hentries
  -- the deployment lies in this mapping
  have hinstall : isMapping (first.follow? installSteps) = true :=
    (Manifest.isMapping_updateMapping steps?_deploymentPath hfirst).trans (Manifest.isMapping_of_below hslot)
  refine Reports.bind (Manifest.reports_updateMapping_of_isMapping steps?_install hinstall
    fun _ _ => Manifest.reports_ok _) fun second hsecond => ?_
  -- and this mapping lies in that one
  have hspec : isMapping (second.follow? [.key "spec"]) = true :=
    (Manifest.isMapping_updateMapping steps?_install hsecond).trans
      (Manifest.isMapping_of_below hinstall)
  refine Reports.bind (Manifest.reports_updateMapping_of_isMapping steps?_spec hspec
    fun spec hentries => ?_) fun third hthird => ?_
  · have hcrds : spec.get? "customresourcedefinitions" =
        template.follow? [.key "spec", .key "customresourcedefinitions"] := by
      have hne : "install" ≠ "customresourcedefinitions" := by decide
      calc spec.get? "customresourcedefinitions"
        _ = second.follow? [.key "spec", .key "customresourcedefinitions"] :=
            Manifest.get?_eq_follow? hentries _
        _ = first.follow? [.key "spec", .key "customresourcedefinitions"] :=
            Manifest.follow?_updateMapping_of_ne [.key "spec"] steps?_install hsecond hne []
        _ = template.follow? [.key "spec", .key "customresourcedefinitions"] :=
            Manifest.follow?_updateMapping_of_ne [.key "spec"] steps?_deploymentPath hfirst hne []
    rw [← hcrds]
    exact Manifest.reports_ensureMapping.bind fun _ _ => Manifest.reports_ok _
  -- nothing has been changed outside the spec
  have hkept (steps : List Step) :
      third.follow? (.key "metadata" :: steps) = template.follow? (.key "metadata" :: steps) := by
    have hne : "spec" ≠ "metadata" := by decide
    calc third.follow? (.key "metadata" :: steps)
      _ = second.follow? (.key "metadata" :: steps) :=
          Manifest.follow?_updateMapping_of_ne [] steps?_spec hthird hne steps
      _ = first.follow? (.key "metadata" :: steps) :=
          Manifest.follow?_updateMapping_of_ne [] steps?_install hsecond hne steps
      _ = template.follow? (.key "metadata" :: steps) :=
          Manifest.follow?_updateMapping_of_ne [] steps?_deploymentPath hfirst hne steps
  rw [← hkept, ← hkept]
  refine Manifest.reports_updateMapping steps?_metadata fun metadata hentries => ?_
  have hannotations : (metadata.set "name" (.string d.name)).get? "annotations" =
      third.follow? [.key "metadata", .key "annotations"] := by
    rw [Yaml.Entries.get?_set_of_ne metadata (by decide)]
    exact Manifest.get?_eq_follow? hentries _
  rw [← hannotations]
  exact Manifest.reports_ensureMapping

/-- Whatever is missing when a template is filled in is missing in the template. -/
theorem names_assemble (d : Descriptor) (source : String) (template : Value) :
    Names source (d.assemble source template) := (reports_assemble d source template).names

/-! ## Which templates can be filled in -/

/-- A descriptor is assembled just if all conditions are met. -/
theorem exists_assemble_iff {d : Descriptor} {source : String} {template : Value} :
    (∃ csv, d.assemble source template = .ok csv) ↔
      ∀ condition ∈ conditions, condition.isMet template = true := by
  rw [(reports_assemble d source template).ok_iff, List.find?_eq_none]
  simp

/-- A descriptor is assembled from the templates that meet all conditions.  For the others the first
condition that is not met is reported.  The mappings on the way to the deployments are asked for
again when they are changed, but are never reported, and no field is without a written form. -/
theorem assemble_decided (d : Descriptor) (source : String) (template : Value) :
    ((∃ csv, d.assemble source template = .ok csv) ↔
      ∀ condition ∈ conditions, condition.isMet template = true) ∧
    (∀ e, d.assemble source template = .error e →
      ∃ before condition after, conditions = before ++ condition :: after ∧
        (∀ met ∈ before, met.isMet template = true) ∧ condition.isMet template = false ∧
        e = .missingField source condition.path) ∧
    (∀ path field, d.assemble source template = .error (.missingField path field) →
      field ≠ "spec.install.spec" ∧ field ≠ "spec") ∧
    ∀ details, d.assemble source template ≠ .error (.unrenderable details) := by
  have hreports := reports_assemble d source template
  have hfind : (conditions.map fun condition => (condition.path, condition.isMet template)).find?
      (!·.2) = (conditions.find? fun condition => !condition.isMet template).map fun condition =>
        (condition.path, condition.isMet template) := List.find?_map ..
  have hfirst : ∀ e, d.assemble source template = .error e →
      ∃ before condition after, conditions = before ++ condition :: after ∧
        (∀ met ∈ before, met.isMet template = true) ∧ condition.isMet template = false ∧
        e = .missingField source condition.path := by
    intro e he
    obtain ⟨check, hcheck, rfl⟩ := hreports.error_iff.mp he
    rw [hfind] at hcheck
    obtain ⟨condition, hcondition, rfl⟩ := Option.map_eq_some_iff.mp hcheck
    obtain ⟨hunmet, before, after, hsplit, hbefore⟩ :=
      List.find?_eq_some_iff_append.mp hcondition
    refine ⟨before, condition, after, hsplit, ?_, by simpa using hunmet, rfl⟩
    intro met hmem
    simpa using hbefore met hmem
  refine ⟨?_, hfirst, ?_, ?_⟩
  · rw [hreports.ok_iff, hfind, Option.map_eq_none_iff, List.find?_eq_none]
    simp
  · intro path field he
    obtain ⟨before, condition, after, hsplit, _, _, heq⟩ := hfirst _ he
    have hmem : condition ∈ conditions := hsplit ▸ List.mem_append_right before List.mem_cons_self
    cases heq
    simp only [conditions, List.mem_cons, List.not_mem_nil, or_false] at hmem
    rcases hmem with rfl | rfl | rfl | rfl <;> decide
  · intro details he
    obtain ⟨_, _, _, _, _, _, heq⟩ := hfirst _ he
    cases heq

end Descriptor

end OperatorBundle
