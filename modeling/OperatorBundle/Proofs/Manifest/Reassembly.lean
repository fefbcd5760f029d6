import OperatorBundle.Proofs.Manifest.Slots
import OperatorBundle.Proofs.Yaml.Overwrite

/-!
# Filling in what has been filled in

A descriptor that has been assembled serves as a template again: what another descriptor fills in
leaves nothing of the first one (`Descriptor.assemble_over_assembled`).
-/

namespace OperatorBundle

open Yaml (Value Entries Step Overwrites)
open Yaml.Entries (Update ensured updates overwrites_updates absorbs_put absorbs_map absorbs_ensured)

namespace Descriptor

/-! ## The fields that are updated -/

/-- The fields around the first deployment. -/
def installFields (d : Descriptor) : List (String × Update) :=
  [("deployments", Option.map (Value.alter (Value.mapEntries (·.set "spec" d.deployment.spec))
      [.index 0])),
    ("clusterPermissions",
      fun _ => some (.sequence (d.clusterPermissions.map ClusterPermission.toValue)))]

/-- The fields of the spec. -/
def specFields (d : Descriptor) : List (String × Update) :=
  [("install", Option.map (Value.alter d.inInstall [.key "spec"])),
    ("customresourcedefinitions",
      some ∘ ensured (·.set "owned" (.sequence (d.ownedCrds.map OwnedCrd.toValue)))),
    ("version", fun _ => some (.string d.version)),
    ("replaces", fun _ => some (.string d.replaces))]

/-- The fields of the metadata. -/
def metadataFields (d : Descriptor) : List (String × Update) :=
  [("name", fun _ => some (.string d.name)),
    ("annotations", some ∘ ensured (·.set "createdAt" (.string d.createdAt.stamp)))]

/-- The fields of the whole document. -/
def fields (d : Descriptor) : List (String × Update) :=
  [("spec", Option.map d.inSpec), ("metadata", Option.map d.inMetadata)]

theorem inInstall_eq (d : Descriptor) : d.inInstall = Value.mapEntries (updates d.installFields) := by
  funext install
  rw [inInstall, Value.alter_key, Value.mapEntries_mapEntries]
  congr 1
  funext entries
  simp only [Function.comp, Yaml.Entries.adjust_eq_update]
  rfl

theorem inSpec_eq (d : Descriptor) : d.inSpec = Value.mapEntries (updates d.specFields) := by
  funext spec
  rw [inSpec, Value.alter_key, Value.mapEntries_mapEntries, Value.mapEntries_mapEntries,
    Value.mapEntries_mapEntries]
  congr 1
  funext entries
  simp only [Function.comp, Yaml.Entries.adjust_eq_update]
  rfl

theorem inMetadata_eq (d : Descriptor) :
    d.inMetadata = Value.mapEntries (updates d.metadataFields) := by
  funext metadata
  rw [inMetadata, Value.mapEntries_mapEntries]
  rfl

variable {d : Descriptor} {source : String} {template csv : Value}

/-- What is assembled is the template with its fields updated. -/
theorem eq_updates_of_assemble (h : d.assemble source template = .ok csv) :
    csv = template.mapEntries (updates d.fields) := by
  rw [eq_of_assemble h, Value.alter_key, Value.alter_key, Value.mapEntries_mapEntries]
  congr 1
  funext entries
  simp only [Function.comp, Yaml.Entries.adjust_eq_update]
  rfl

/-! ## What one descriptor leaves of another -/

section

variable (second first : Descriptor)

theorem overwrites_inInstall : Overwrites second.inInstall first.inInstall := by
  have hslot : Overwrites (Value.mapEntries (·.set "spec" second.deployment.spec))
      (Value.mapEntries (·.set "spec" first.deployment.spec)) :=
    Overwrites.mapEntries fun entries => Yaml.Entries.set_set entries _ _ _
  rw [inInstall_eq, inInstall_eq]
  refine (overwrites_updates ?_ (by simp [installFields])).mapEntries
  exact .cons ⟨rfl, absorbs_map (hslot.alter _)⟩ (.cons ⟨rfl, absorbs_put _ _⟩ .nil)

theorem overwrites_inSpec : Overwrites second.inSpec first.inSpec := by
  have howned : Overwrites
      (fun entries : Entries => entries.set "owned" (.sequence (second.ownedCrds.map OwnedCrd.toValue)))
      (fun entries => entries.set "owned" (.sequence (first.ownedCrds.map OwnedCrd.toValue))) :=
    fun entries => Yaml.Entries.set_set entries _ _ _
  rw [inSpec_eq, inSpec_eq]
  refine (overwrites_updates ?_ (by simp [specFields])).mapEntries
  exact .cons ⟨rfl, absorbs_map ((overwrites_inInstall second first).alter _)⟩
    (.cons ⟨rfl, absorbs_ensured howned⟩ (.cons ⟨rfl, absorbs_put _ _⟩
      (.cons ⟨rfl, absorbs_put _ _⟩ .nil)))

theorem overwrites_inMetadata : Overwrites second.inMetadata first.inMetadata := by
  have hstamp : Overwrites
      (fun entries : Entries => entries.set "createdAt" (.string second.createdAt.stamp))
      (fun entries => entries.set "createdAt" (.string first.createdAt.stamp)) :=
    fun entries => Yaml.Entries.set_set entries _ _ _
  rw [inMetadata_eq, inMetadata_eq]
  refine (overwrites_updates ?_ (by simp [metadataFields])).mapEntries
  exact .cons ⟨rfl, absorbs_put _ _⟩ (.cons ⟨rfl, absorbs_ensured hstamp⟩ .nil)

theorem overwrites_fields : Overwrites (updates second.fields) (updates first.fields) := by
  refine overwrites_updates ?_ (by simp [fields])
  exact .cons ⟨rfl, absorbs_map (overwrites_inSpec second first)⟩
    (.cons ⟨rfl, absorbs_map (overwrites_inMetadata second first)⟩ .nil)

end

/-! ## What is asked of a template -/

theorem isRoom_of_isMapping {found : Option Value} (h : Manifest.isMapping found = true) :
    Manifest.isRoom found = true := by
  cases found with
  | none => rfl
  | some v => exact (Bool.or_eq_true _ _).mpr (.inr h)

/-- The slots in the mappings that a template must have are found in what has been assembled, so that
these are mappings there too. -/
theorem isMet_of_assemble (h : d.assemble source template = .ok csv) :
    ∀ condition ∈ conditions, condition.isMet csv = true := by
  have hoverlay := overlay_of_assemble h
  obtain ⟨_, hcreatedAt⟩ := lookup?_metadata hoverlay
  obtain ⟨_, _, howned⟩ := lookup?_spec hoverlay
  obtain ⟨_, hdeployment⟩ := lookup?_install hoverlay
  have hspecPath : Yaml.Path.steps? "spec.install.spec.deployments[0].spec" =
      some (slotSteps ++ [.key "spec"]) := by decide
  have hownedPath : Yaml.Path.steps? "spec.customresourcedefinitions.owned" =
      some ([.key "spec", .key "customresourcedefinitions"] ++ [.key "owned"]) := by decide
  have hstampPath : Yaml.Path.steps? "metadata.annotations.createdAt" =
      some ([.key "metadata", .key "annotations"] ++ [.key "createdAt"]) := by decide
  rw [Value.lookup?_eq_follow? csv hspecPath] at hdeployment
  rw [Value.lookup?_eq_follow? csv hownedPath] at howned
  rw [Value.lookup?_eq_follow? csv hstampPath] at hcreatedAt
  have hslot := Manifest.isMapping_of_found hdeployment
  have hdefinitions := Manifest.isMapping_of_found howned
  have hannotations := Manifest.isMapping_of_found hcreatedAt
  have hmetadata : Manifest.isMapping (csv.follow? [.key "metadata"]) = true := by
    have hinside : csv.follow? ([.key "metadata"] ++ .key "annotations" :: [.key "createdAt"]) =
        some (.string d.createdAt.stamp) := hcreatedAt
    exact Manifest.isMapping_of_found hinside
  rw [← Value.lookup?_eq_follow? csv steps?_deploymentPath] at hslot
  rw [← Value.lookup?_eq_follow? csv steps?_definitions] at hdefinitions
  rw [← Value.lookup?_eq_follow? csv steps?_metadata] at hmetadata
  rw [← Value.lookup?_eq_follow? csv steps?_annotations] at hannotations
  simp only [conditions, List.forall_mem_cons, Manifest.Condition.isMet]
  exact ⟨hslot, isRoom_of_isMapping hdefinitions, hmetadata, isRoom_of_isMapping hannotations, by simp⟩

/-! ## A descriptor as a template -/

/-- What has been assembled is as good a template as the one that it was assembled from: any other
descriptor can be filled into it, and the outcome is the same, the order of all keys included.  The
descriptor that it was assembled from changes nothing more. -/
theorem assemble_over_assembled {first second : Descriptor} {source : String}
    {template assembled : Value} (h : first.assemble source template = .ok assembled)
    (again original : String) :
    (∃ csv, second.assemble again assembled = .ok csv ∧ second.assemble original template = .ok csv) ∧
      first.assemble again assembled = .ok assembled := by
  have hassembled := eq_updates_of_assemble h
  -- what a descriptor makes of what has been assembled is what it makes of the template
  have hsame : ∀ {third : Descriptor} {csv csv' : Value}, third.assemble again assembled = .ok csv →
      third.assemble original template = .ok csv' → csv = csv' := by
    intro third csv csv' hagain horiginal
    rw [eq_updates_of_assemble hagain, eq_updates_of_assemble horiginal, hassembled]
    exact (overwrites_fields third first).mapEntries template
  have hmet := exists_assemble_iff.mp ⟨assembled, h⟩
  have hassembles (third : Descriptor) :
      ∃ csv, third.assemble again assembled = .ok csv ∧ third.assemble original template = .ok csv := by
    obtain ⟨csv, hagain⟩ := exists_assemble_iff.mpr (isMet_of_assemble h)
    obtain ⟨csv', horiginal⟩ := exists_assemble_iff.mpr hmet
    exact ⟨csv, hagain, hsame hagain horiginal ▸ horiginal⟩
  obtain ⟨csv, hagain, horiginal⟩ := hassembles first
  have hfirst : csv = assembled := by rw [eq_updates_of_assemble horiginal, hassembled]
  exact ⟨hassembles second, hfirst ▸ hagain⟩

/-- A descriptor with nothing in its lists. -/
def laterDescriptor : Descriptor :=
  { name := "op.v3", version := "3", replaces := "op.v2", createdAt := ⟨86400, 0⟩
    ownedCrds := [], clusterPermissions := [], deployment := ⟨.tagged "later" .null⟩ }

/-- The tagged template, of which annotations and definitions are made by the first descriptor. -/
theorem assemble_over_tagged : ∃ assembled,
    plainDescriptor.assemble "t" taggedTemplate = .ok assembled ∧
      (∃ csv, laterDescriptor.assemble "again" assembled = .ok csv ∧
        laterDescriptor.assemble "t" taggedTemplate = .ok csv) ∧
      plainDescriptor.assemble "again" assembled = .ok assembled := by
  have hmet : ∀ condition ∈ conditions, condition.isMet taggedTemplate = true := by decide
  obtain ⟨assembled, h⟩ := exists_assemble_iff.mpr hmet
  exact ⟨assembled, h, assemble_over_assembled h "again" "t"⟩

end Descriptor

end OperatorBundle
