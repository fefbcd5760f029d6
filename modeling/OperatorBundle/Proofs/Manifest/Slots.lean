import OperatorBundle.Proofs.Manifest.Condition
import OperatorBundle.Proofs.Manifest.RoundTrip
import OperatorBundle.Proofs.Yaml.Change

/-!
# The slots of a template

What is assembled is the template with seven slots filled in.  `Descriptor.overlay` says so for the
whole document: which fields change, how each of them does, and with it that nothing else does.
`Descriptor.isFilledIn_of_assemble` adds what is found in the slots.  Rules are made anew on the way,
which leaves them as they are unless an exclamation mark stands in front of the name of a tag.
-/

namespace OperatorBundle

open Yaml (Value Entries Step Change)
open Yaml.Change (becomes inMapping inMade inFirst)

namespace Descriptor

/-! ## What is filled in -/

/-- What becomes of a template.  Two of the mappings on the way to the slots are made where they are
missing; all others must be there. -/
def overlay (d : Descriptor) : Change :=
  inMapping [
    ("spec", inMapping [
      ("install", inMapping [
        ("spec", inMapping [
          ("deployments", inFirst (inMapping [("spec", becomes d.deployment.spec)])),
          ("clusterPermissions",
            becomes (.sequence (d.clusterPermissions.map ClusterPermission.toValue)))])]),
      ("customresourcedefinitions",
        inMade [("owned", becomes (.sequence (d.ownedCrds.map OwnedCrd.toValue)))]),
      ("version", becomes (.string d.version)),
      ("replaces", becomes (.string d.replaces))]),
    ("metadata", inMapping [
      ("name", becomes (.string d.name)),
      ("annotations", inMade [("createdAt", becomes (.string d.createdAt.stamp))])])]

/-- A document is the template with the slots of a descriptor filled in. -/
structure IsFilledIn (d : Descriptor) (template csv : Value) : Prop where
  /-- Nothing has changed but the slots, and the keys are in their order. -/
  overlay : d.overlay (some template) csv
  name : csv.lookup? "metadata.name" = some (.string d.name)
  createdAt : csv.lookup? "metadata.annotations.createdAt" = some (.string d.createdAt.stamp)
  version : csv.lookup? "spec.version" = some (.string d.version)
  replaces : csv.lookup? "spec.replaces" = some (.string d.replaces)
  /-- The owned definitions, one record for each. -/
  owned : csv.lookup? "spec.customresourcedefinitions.owned" =
    some (.sequence (d.ownedCrds.map fun crd => .mapping
      [(.string "name", .string crd.name), (.string "description", .string crd.description),
        (.string "displayName", .string crd.displayName), (.string "kind", .string crd.kind),
        (.string "version", .string crd.version)]))
  /-- The permissions, one record for each, with the rules made anew. -/
  clusterPermissions : csv.lookup? "spec.install.spec.clusterPermissions" =
    some (.sequence (d.clusterPermissions.map fun permission => .mapping
      [(.string "rules", .sequence (permission.rules.map Value.rebuilt)),
        (.string "serviceAccountName", .string permission.serviceAccountName)]))
  /-- A rule of a manifest is as it was exactly if its tags are shown with their names. -/
  rules : ∀ permission ∈ d.clusterPermissions, ∀ rule ∈ permission.rules, rule.IsProper →
    (rule.rebuilt = rule ↔ ∀ name ∈ rule.tagNames, Value.shownTag name = name)
  deployment : csv.lookup? "spec.install.spec.deployments[0].spec" = some d.deployment.spec

/-! ## How it is filled in -/

/-- Fills in the first deployment and the permissions. -/
def inInstall (d : Descriptor) (install : Value) : Value :=
  (install.alter (Value.mapEntries (·.set "spec" d.deployment.spec))
    [.key "deployments", .index 0]).mapEntries
    (·.set "clusterPermissions" (.sequence (d.clusterPermissions.map ClusterPermission.toValue)))

/-- Fills in what lies in the spec. -/
def inSpec (d : Descriptor) (spec : Value) : Value :=
  (((spec.alter d.inInstall [.key "install", .key "spec"]).mapEntries
    (·.ensure "customresourcedefinitions"
      (·.set "owned" (.sequence (d.ownedCrds.map OwnedCrd.toValue))))).mapEntries
    (·.set "version" (.string d.version))).mapEntries (·.set "replaces" (.string d.replaces))

/-- Fills in what lies in the metadata. -/
def inMetadata (d : Descriptor) (metadata : Value) : Value :=
  (metadata.mapEntries (·.set "name" (.string d.name))).mapEntries
    (·.ensure "annotations" (·.set "createdAt" (.string d.createdAt.stamp)))

variable {d : Descriptor} {source : String} {template csv : Value}

/-- The changes one after the other are one of the spec and one of the metadata. -/
theorem eq_of_assemble (h : d.assemble source template = .ok csv) :
    csv = (template.alter d.inSpec [.key "spec"]).alter d.inMetadata [.key "metadata"] := by
  rcases bind_eq_ok_iff.mp h with ⟨first, hfirst, h⟩
  rcases bind_eq_ok_iff.mp h with ⟨second, hsecond, h⟩
  rcases bind_eq_ok_iff.mp h with ⟨third, hthird, h⟩
  have hfirst' := Manifest.eq_alter_of_updateMapping steps?_deploymentPath hfirst
    fun _ _ hslot => (Except.ok.inj hslot).symm
  have hsecond' := Manifest.eq_alter_of_updateMapping steps?_install hsecond
    fun _ _ hinstall => (Except.ok.inj hinstall).symm
  have hthird' := Manifest.eq_alter_of_updateMapping steps?_spec hthird fun _ _ hspec => by
    rcases bind_eq_ok_iff.mp hspec with ⟨made, hmade, hspec⟩
    rw [Manifest.eq_ensure_of_ensureMapping hmade] at hspec
    exact (Except.ok.inj hspec).symm
  have hcsv := Manifest.eq_alter_of_updateMapping steps?_metadata h
    fun _ _ hmetadata => Manifest.eq_ensure_of_ensureMapping hmetadata
  -- a change is one of the part that the next change is about
  have hinstall : second = template.alter d.inInstall installSteps := by
    rw [hsecond', hfirst', show slotSteps = installSteps ++ [.key "deployments", .index 0] from rfl,
      Value.alter_append, Value.alter_alter]
    rfl
  have hspec : third = template.alter d.inSpec [.key "spec"] := by
    rw [hthird', hinstall,
      show installSteps = [.key "spec"] ++ [.key "install", .key "spec"] from rfl,
      Value.alter_append, Value.alter_alter]
    congr 1
    funext spec
    rw [inSpec, Value.mapEntries_mapEntries, Value.mapEntries_mapEntries]
    rfl
  rw [hcsv, hspec]
  congr 1
  funext metadata
  rw [inMetadata, Value.mapEntries_mapEntries]
  rfl

/-! ## What becomes of each part -/

/-- A place in which there is a mapping, null or nothing. -/
theorem exists_of_isRoom {found : Option Value} (h : Manifest.isRoom found = true) :
    ∀ v, found = some v → v.isNull = true ∨ ∃ entries, v.asMapping? = some entries := by
  rintro v rfl
  rw [Manifest.isRoom, Option.all_some, Bool.or_eq_true] at h
  exact h.imp_right Option.isSome_iff_exists.mp

/-- The way to the first deployment, step by step. -/
structure HasSlot (template spec install inner deployments slot : Value) : Prop where
  toSpec : template.child? (.key "spec") = some spec
  toInstall : spec.child? (.key "install") = some install
  toInner : install.child? (.key "spec") = some inner
  toDeployments : inner.child? (.key "deployments") = some deployments
  toSlot : ∃ rest, deployments.asSequence? = some (slot :: rest)
  isMapping : ∃ entries, slot.asMapping? = some entries

theorem exists_hasSlot (h : Manifest.isMapping (template.follow? slotSteps) = true) :
    ∃ spec install inner deployments slot,
      HasSlot template spec install inner deployments slot := by
  obtain ⟨entries, h⟩ := Option.isSome_iff_exists.mp h
  obtain ⟨last, h, hentries⟩ := Option.bind_eq_some_iff.mp h
  obtain ⟨spec, hspec, h⟩ := Option.bind_eq_some_iff.mp h
  obtain ⟨install, hinstall, h⟩ := Option.bind_eq_some_iff.mp h
  obtain ⟨inner, hinner, h⟩ := Option.bind_eq_some_iff.mp h
  obtain ⟨deployments, hdeployments, h⟩ := Option.bind_eq_some_iff.mp h
  obtain ⟨slot, hslot, hend⟩ := Option.bind_eq_some_iff.mp h
  obtain ⟨items, hitems, hfirst⟩ := Option.bind_eq_some_iff.mp hslot
  rw [← Option.some.inj hend] at hentries
  cases items with
  | nil => cases hfirst
  | cons first rest =>
      rw [Option.some.inj hfirst] at hitems
      exact ⟨spec, install, inner, deployments, slot, hspec, hinstall, hinner, hdeployments,
        ⟨rest, hitems⟩, ⟨entries, hentries⟩⟩

section

variable {spec install inner deployments slot : Value}

/-- The first deployment and the permissions, in the mapping around them. -/
theorem HasSlot.overlay_inner (h : HasSlot template spec install inner deployments slot) :
    inMapping [
      ("deployments", inFirst (inMapping [("spec", becomes d.deployment.spec)])),
      ("clusterPermissions",
        becomes (.sequence (d.clusterPermissions.map ClusterPermission.toValue)))]
      (some inner) (d.inInstall inner) := by
  obtain ⟨rest, hitems⟩ := h.toSlot
  obtain ⟨slotEntries, hslot⟩ := h.isMapping
  obtain ⟨entries, hentries, _⟩ := Option.bind_eq_some_iff.mp h.toDeployments
  let fill : Value → Value := Value.mapEntries (·.set "spec" d.deployment.spec)
  have hdeployment : inMapping [("spec", becomes d.deployment.spec)] (some slot) (fill slot) :=
    (inMapping.refl hslot).set (by simp) rfl
  have hdeployments := (inMapping.refl hentries).alter (by simp) h.toDeployments fill [.index 0]
    (Yaml.Change.inFirst_alter hitems fill [] hdeployment)
  exact hdeployments.set (by simp) rfl

/-- What lies in the spec. -/
theorem HasSlot.overlay_spec (h : HasSlot template spec install inner deployments slot)
    (hroom : Manifest.isRoom (spec.child? (.key "customresourcedefinitions")) = true) :
    inMapping [
      ("install", inMapping [
        ("spec", inMapping [
          ("deployments", inFirst (inMapping [("spec", becomes d.deployment.spec)])),
          ("clusterPermissions",
            becomes (.sequence (d.clusterPermissions.map ClusterPermission.toValue)))])]),
      ("customresourcedefinitions",
        inMade [("owned", becomes (.sequence (d.ownedCrds.map OwnedCrd.toValue)))]),
      ("version", becomes (.string d.version)),
      ("replaces", becomes (.string d.replaces))] (some spec) (d.inSpec spec) := by
  obtain ⟨entries, hentries, _⟩ := Option.bind_eq_some_iff.mp h.toInstall
  obtain ⟨outer, houter, _⟩ := Option.bind_eq_some_iff.mp h.toInner
  have hinstall := (inMapping.refl houter).alter (by simp) h.toInner d.inInstall []
    h.overlay_inner
  have hspec := (inMapping.refl hentries).alter (by simp) h.toInstall d.inInstall
    [.key "spec"] hinstall
  have howned (es : Entries) : es.AreChanged
      [("owned", becomes (.sequence (d.ownedCrds.map OwnedCrd.toValue)))]
      (es.set "owned" (.sequence (d.ownedCrds.map OwnedCrd.toValue))) :=
    (Entries.AreChanged.refl es).set (by simp) rfl
  have hmade := hspec.ensure (by simp) howned (exists_of_isRoom hroom)
  exact (hmade.set (by simp) rfl).set (by simp) rfl

end

/-- What lies in the metadata. -/
theorem overlay_metadata {metadata : Value} {entries : Entries}
    (hentries : metadata.asMapping? = some entries)
    (hroom : Manifest.isRoom (metadata.child? (.key "annotations")) = true) :
    inMapping [
      ("name", becomes (.string d.name)),
      ("annotations", inMade [("createdAt", becomes (.string d.createdAt.stamp))])]
      (some metadata) (d.inMetadata metadata) := by
  have hstamped (es : Entries) : es.AreChanged
      [("createdAt", becomes (.string d.createdAt.stamp))]
      (es.set "createdAt" (.string d.createdAt.stamp)) :=
    (Entries.AreChanged.refl es).set (by simp) rfl
  have hname : inMapping [("name", becomes (.string d.name))] (some metadata)
      (metadata.mapEntries (·.set "name" (.string d.name))) :=
    (inMapping.refl hentries).set (by simp) rfl
  exact hname.ensure (by simp) hstamped (exists_of_isRoom hroom)

/-- What becomes of a template that meets the conditions. -/
theorem overlay_of_isMet (hmet : ∀ condition ∈ conditions, condition.isMet template = true) :
    d.overlay (some template)
      ((template.alter d.inSpec [.key "spec"]).alter d.inMetadata [.key "metadata"]) := by
  simp only [conditions, List.forall_mem_cons, Manifest.Condition.isMet] at hmet
  obtain ⟨hslot, hcrds, hmetadata, hannotations, -⟩ := hmet
  change Manifest.isMapping (template.lookup? deploymentPath) = true at hslot
  rw [Value.lookup?_eq_follow? template steps?_deploymentPath] at hslot
  rw [Value.lookup?_of_steps template steps?_definitions] at hcrds
  rw [Value.lookup?_of_step template steps?_metadata] at hmetadata
  rw [Value.lookup?_of_steps template steps?_annotations] at hannotations
  obtain ⟨spec, install, inner, deployments, slot, h⟩ := exists_hasSlot hslot
  obtain ⟨fields, hfields⟩ := Option.isSome_iff_exists.mp hmetadata
  obtain ⟨metadata, hchild, hfields⟩ := Option.bind_eq_some_iff.mp hfields
  obtain ⟨entries, hentries, _⟩ := Option.bind_eq_some_iff.mp h.toSpec
  rw [h.toSpec, Option.bind_some] at hcrds
  rw [hchild, Option.bind_some] at hannotations
  have hspec := (inMapping.refl hentries).alter (by simp) h.toSpec d.inSpec []
    (h.overlay_spec hcrds)
  exact hspec.alter (by simp) hchild d.inMetadata [] (overlay_metadata hfields hannotations)

/-! ## What is found in the slots -/

/-- What is found in the metadata. -/
theorem lookup?_metadata (h : d.overlay (some template) csv) :
    csv.lookup? "metadata.name" = some (.string d.name) ∧
      csv.lookup? "metadata.annotations.createdAt" = some (.string d.createdAt.stamp) := by
  have hnamePath : Yaml.Path.steps? "metadata.name" = some [.key "metadata", .key "name"] := by
    decide
  have hstampPath : Yaml.Path.steps? "metadata.annotations.createdAt" =
      some [.key "metadata", .key "annotations", .key "createdAt"] := by decide
  obtain ⟨_, metadata, hmetadata, h⟩ := inMapping.child? h (.tail _ (.head _))
  obtain ⟨_, name, hname, rfl⟩ := h.child? (.head _)
  obtain ⟨_, annotations, hannotations, h⟩ := h.child? (.tail _ (.head _))
  obtain ⟨_, createdAt, hcreatedAt, rfl⟩ := h.child? (.head _)
  rw [Value.lookup?_eq_follow? csv hnamePath, Value.lookup?_eq_follow? csv hstampPath]
  constructor
  · simp [Value.follow?, hmetadata, hname]
  · simp [Value.follow?, hmetadata, hannotations, hcreatedAt]

/-- What is found in the spec. -/
theorem lookup?_spec (h : d.overlay (some template) csv) :
    csv.lookup? "spec.version" = some (.string d.version) ∧
      csv.lookup? "spec.replaces" = some (.string d.replaces) ∧
      csv.lookup? "spec.customresourcedefinitions.owned" =
        some (.sequence (d.ownedCrds.map OwnedCrd.toValue)) := by
  have hversionPath : Yaml.Path.steps? "spec.version" = some [.key "spec", .key "version"] := by
    decide
  have hreplacesPath : Yaml.Path.steps? "spec.replaces" = some [.key "spec", .key "replaces"] := by
    decide
  have hownedPath : Yaml.Path.steps? "spec.customresourcedefinitions.owned" =
      some [.key "spec", .key "customresourcedefinitions", .key "owned"] := by decide
  obtain ⟨_, spec, hspec, h⟩ := inMapping.child? h (.head _)
  obtain ⟨_, crds, hcrds, hmade⟩ := h.child? (.tail _ (.head _))
  obtain ⟨_, owned, howned, rfl⟩ := hmade.child? (.head _)
  obtain ⟨_, version, hversion, rfl⟩ := h.child? (.tail _ (.tail _ (.head _)))
  obtain ⟨_, replaces, hreplaces, rfl⟩ := h.child? (.tail _ (.tail _ (.tail _ (.head _))))
  rw [Value.lookup?_eq_follow? csv hversionPath, Value.lookup?_eq_follow? csv hreplacesPath,
    Value.lookup?_eq_follow? csv hownedPath]
  refine ⟨?_, ?_, ?_⟩
  · simp [Value.follow?, hspec, hversion]
  · simp [Value.follow?, hspec, hreplaces]
  · simp [Value.follow?, hspec, hcrds, howned]

/-- What is found in the installation. -/
theorem lookup?_install (h : d.overlay (some template) csv) :
    csv.lookup? "spec.install.spec.clusterPermissions" =
        some (.sequence (d.clusterPermissions.map ClusterPermission.toValue)) ∧
      csv.lookup? "spec.install.spec.deployments[0].spec" = some d.deployment.spec := by
  have hpermissionsPath : Yaml.Path.steps? "spec.install.spec.clusterPermissions" =
      some (installSteps ++ [.key "clusterPermissions"]) := by decide
  have hdeploymentPath : Yaml.Path.steps? "spec.install.spec.deployments[0].spec" =
      some (slotSteps ++ [.key "spec"]) := by decide
  obtain ⟨_, spec, hspec, h⟩ := inMapping.child? h (.head _)
  obtain ⟨_, install, hinstall, h⟩ := h.child? (.head _)
  obtain ⟨_, inner, hinner, h⟩ := h.child? (.head _)
  obtain ⟨_, deployments, hdeployments, hfirst⟩ := h.child? (.head _)
  obtain ⟨_, slot, hslot, hfirst⟩ := hfirst.child?
  obtain ⟨_, deployment, hdeployment, rfl⟩ := hfirst.child? (.head _)
  obtain ⟨_, permissions, hpermissions, rfl⟩ := h.child? (.tail _ (.head _))
  rw [Value.lookup?_eq_follow? csv hpermissionsPath, Value.lookup?_eq_follow? csv hdeploymentPath]
  constructor
  · simp [Value.follow?, hspec, hinstall, hinner, hpermissions]
  · simp [Value.follow?, hspec, hinstall, hinner, hdeployments, hslot, hdeployment]

/-! ## All slots -/

/-- An assembly succeeds on templates that meet the conditions, and fills in their slots. -/
theorem overlay_of_assemble (h : d.assemble source template = .ok csv) :
    d.overlay (some template) csv := by
  rw [eq_of_assemble h]
  exact overlay_of_isMet (exists_assemble_iff.mp ⟨csv, h⟩)

/-- What is assembled is the template with all slots filled in. -/
theorem isFilledIn_of_assemble (h : d.assemble source template = .ok csv) :
    d.IsFilledIn template csv := by
  have hoverlay := overlay_of_assemble h
  obtain ⟨hname, hcreatedAt⟩ := lookup?_metadata hoverlay
  obtain ⟨hversion, hreplaces, howned⟩ := lookup?_spec hoverlay
  obtain ⟨hpermissions, hdeployment⟩ := lookup?_install hoverlay
  exact ⟨hoverlay, hname, hcreatedAt, hversion, hreplaces, howned, hpermissions,
    fun _ _ _ _ hproper => hproper.rebuilt_eq_self_iff, hdeployment⟩

/-- A template with tags, with keys that are no strings, with leftovers in some slots and with others
missing. -/
def taggedTemplate : Value :=
  .tagged "t" (.mapping
    [(.null, .string "kept"),
      (.string "metadata", .tagged "m" (.mapping
        [(.string "name", .string "stale"), (.string "annotations", .tagged "n" .null)])),
      (.string "spec", .mapping
        [(.string "replaces", .bool true),
          (.string "install", .mapping
            [(.string "spec", .tagged "i" (.mapping
              [(.string "deployments", .tagged "d" (.sequence
                [.tagged "first" (.mapping [(.string "spec", .null), (.string "name", .null)]),
                  .string "second"]))]))]),
          (.tagged "k" (.string "version"), .string "kept")])])

/-- A descriptor with a definition and a permission. -/
def plainDescriptor : Descriptor :=
  { name := "op.v2", version := "2", replaces := "op.v1", createdAt := ⟨0, 0⟩
    ownedCrds :=
      [{ name := "a.b", description := "A", displayName := "A", kind := "A", version := "1" }]
    clusterPermissions :=
      [{ rules := [.tagged "r" .null, .tagged "!r" .null], serviceAccountName := "sa" }]
    deployment := ⟨.mapping []⟩ }

/-- The tagged template is filled in. -/
theorem isFilledIn_tagged : ∃ csv, plainDescriptor.assemble "t" taggedTemplate = .ok csv ∧
    plainDescriptor.IsFilledIn taggedTemplate csv := by
  have hmet : (conditions.map fun condition =>
      (condition.path, condition.isMet taggedTemplate)).find? (!·.2) = none := by decide
  obtain ⟨csv, h⟩ := (reports_assemble plainDescriptor "t" taggedTemplate).ok_iff.mpr hmet
  exact ⟨csv, h, isFilledIn_of_assemble h⟩

/-- A role whose rule is a string behind a tag of four exclamation marks. -/
def markedRole : String := "rules: [!<!!!!a> x]"

/-- The rules of a role are not always the rules of what is assembled. -/
theorem not_verbatim_rules :
    ¬ ∀ (d : Descriptor) (source text : String) (template csv : Value), d.IsSummary →
      Manifest.read source text = .ok template → d.assemble source template = .ok csv →
      csv.lookup? "spec.install.spec.clusterPermissions" =
        some (.sequence (d.clusterPermissions.map fun permission => .mapping
          [(.string "rules", .sequence permission.rules),
            (.string "serviceAccountName", .string permission.serviceAccountName)])) := by
  intro hverbatim
  have hnames : (smallDescriptor markedRole).toOption.map (fun d => d.clusterPermissions.any fun p =>
      p.rules.any fun rule => rule.tagNames.contains "!!a") = some true := by
    decide +kernel
  have hok : (smallDocument (smallTemplate "") markedRole).isOk = true := by
    decide +kernel
  obtain ⟨csv, hcsv⟩ := exists_of_isOk hok
  obtain ⟨d, hd, hassemble⟩ := bind_eq_ok_iff.mp hcsv
  obtain ⟨template, htemplate, hassemble⟩ := bind_eq_ok_iff.mp hassemble
  have hsummary := isSummary_of_smallDescriptor hd
  rw [hd] at hnames
  obtain ⟨permission, hpermission, hany⟩ := List.any_eq_true.mp (Option.some.inj hnames)
  obtain ⟨rule, hrule, hname⟩ := List.any_eq_true.mp hany
  have hsame := hverbatim d "t" (smallTemplate "") template csv hsummary htemplate hassemble
  rw [(lookup?_install (overlay_of_assemble hassemble)).1, Option.some.injEq, Value.sequence.injEq,
    List.map_inj_left] at hsame
  -- verbatim rules would keep all their tags, and one of them is shown with another name
  have hrules : permission.rules.map Value.rebuilt = permission.rules.map id := by
    simpa [ClusterPermission.toValue] using hsame permission hpermission
  have hkept := (hsummary.isProper.rules permission hpermission rule hrule).rebuilt_eq_self_iff.mp
    (List.map_inj_left.mp hrules rule hrule) "!!a" (List.contains_iff_mem.mp hname)
  exact absurd hkept (by decide)

end Descriptor

end OperatorBundle
