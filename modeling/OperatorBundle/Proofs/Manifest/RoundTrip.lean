import OperatorBundle.Proofs.Manifest.Proper
import OperatorBundle.Proofs.Yaml.RoundTrip

/-!
# Descriptors that are read again

A descriptor that is assembled from manifests is rendered, and its text reads as the same document,
unless collections are nested too deep in it, a tag in it is not written as it is, or some mapping
of one entry has a key for which no form is made.
-/

namespace OperatorBundle

open Yaml (Value)

/-! ## Descriptors from manifests -/

namespace Descriptor

/-- Is all that a descriptor holds of manifests taken from texts that are read and summarized? -/
structure IsSummary (d : Descriptor) : Prop where
  ownedCrds : ∀ crd ∈ d.ownedCrds, ∃ source text document,
    Manifest.read source text = .ok document ∧ OwnedCrd.ofDocument source document = .ok crd
  clusterPermissions : ∀ permission ∈ d.clusterPermissions, ∃ source text role account,
    Manifest.read source text = .ok role ∧
      ClusterPermission.ofRole source role account = .ok permission
  deployment : ∃ source text image operator, Deployment.ofStream source text = .ok operator ∧
    operator.withImage source image = .ok d.deployment

/-- What is taken from manifests is proper. -/
theorem IsSummary.isProper {d : Descriptor} (h : d.IsSummary) : d.IsProper where
  rules permission hpermission := by
    rcases h.clusterPermissions permission hpermission with ⟨source, text, role, account, hread, hrole⟩
    exact Value.isHereditary_isProper.of_ofRole (Manifest.isProper_of_read hread) hrole
  deployment := by
    rcases h.deployment with ⟨source, text, image, operator, hstream, himage⟩
    exact Value.isHereditary_isProper.withImage (Deployment.isProper_of_ofStream hstream) himage

end Descriptor

/-! ## The round trip -/

namespace Manifest

/-- Is a document rendered, and its text read again as the same document from whatever source? -/
def IsRestored (v : Value) : Prop :=
  ∃ text, render v = .ok text ∧ ∀ source, read source text = .ok v

/-- A manifest is rendered as the text the printer writes. -/
theorem render_eq_ok_iff {v : Value} {text : String} :
    render v = .ok text ↔ Yaml.write v = some text := by
  unfold render
  cases Yaml.write v with
  | none =>
      constructor
      · intro h
        cases h
      · intro h
        cases h
  | some written =>
      constructor
      · intro h
        exact congrArg some (Except.ok.inj h)
      · intro h
        exact congrArg Except.ok (Option.some.inj h)

/-- A manifest is restored when it is printed as a text that is read as it. -/
theorem isRestored_iff (v : Value) :
    IsRestored v ↔ ∃ text, Yaml.write v = some text ∧ Yaml.read text = .ok v := by
  refine exists_congr fun text => and_congr render_eq_ok_iff ?_
  constructor
  · intro h
    exact read_eq_ok_iff.mp (h "")
  · intro h source
    exact read_eq_ok_iff.mpr h

end Manifest

/-- A descriptor assembled from manifests is rendered and read again as it was if it can be restored,
and only then unless it has a tag with a comma or bracket. -/
theorem Descriptor.isRestored_of_assemble {templateSource templateText : String}
    {template csv : Value} {d : Descriptor}
    (htemplate : Manifest.read templateSource templateText = .ok template) (hd : d.IsSummary)
    (h : d.assemble templateSource template = .ok csv) :
    (csv.IsRestorable → Manifest.IsRestored csv) ∧
      ((∀ name ∈ csv.tagNames, Yaml.Property.isReadableTag name = true) →
        Manifest.IsRestored csv → csv.IsRestorable) := by
  have hproper : csv.IsProper :=
    isProper_of_assemble hd.isProper (Manifest.isProper_of_read htemplate) h
  rw [Manifest.isRestored_iff]
  constructor
  · intro hrestorable
    have hreadable : ∀ name ∈ csv.tagNames, Yaml.Property.isReadableTag name = true :=
      fun name hname => Value.isReadableTag_of_isFaithfulTag (hrestorable.tags name hname)
    exact (Yaml.exists_write_read_iff hproper hreadable).mpr hrestorable
  · intro hreadable
    exact (Yaml.exists_write_read_iff hproper hreadable).mp

/-! ## Small documents -/

/-- A descriptor with the permission that a role gives to a small operator. -/
def smallDescriptor (role : String) : Except BundleError Descriptor := do
  let permission ← ClusterPermission.ofRole "r" (← Manifest.read "r" role) "sa"
  let operator ← Deployment.ofStream "o" "spec: {template: {spec: {containers: [{}]}}}"
  let deployment ← operator.withImage "o" "img"
  return { name := "op.v2", version := "2", replaces := "op.v1", createdAt := ⟨0, 0⟩
           ownedCrds := [], clusterPermissions := [permission], deployment }

/-- The document that a template and a role make. -/
def smallDocument (template role : String) : Except BundleError Value := do
  let d ← smallDescriptor role
  d.assemble "t" (← Manifest.read "t" template)

/-- A template with nothing but what must be there, and something before it. -/
def smallTemplate (start : String) : String :=
  start ++ "{metadata: {}, spec: {install: {spec: {deployments: [{}]}}}}"

/-- Is this a document that is assembled from manifests? -/
def IsAssembled (csv : Value) : Prop :=
  ∃ (source text : String) (template : Value) (d : Descriptor),
    Manifest.read source text = .ok template ∧ d.IsSummary ∧ d.assemble source template = .ok csv

/-- The small descriptor is made from summaries that were read. -/
theorem isSummary_of_smallDescriptor {role : String} {d : Descriptor}
    (h : smallDescriptor role = .ok d) : d.IsSummary := by
  rcases bind_eq_ok_iff.mp h with ⟨document, hrole, h⟩
  rcases bind_eq_ok_iff.mp h with ⟨permission, hpermission, h⟩
  rcases bind_eq_ok_iff.mp h with ⟨operator, hoperator, h⟩
  rcases bind_eq_ok_iff.mp h with ⟨deployment, hdeployment, h⟩
  cases h
  refine ⟨fun crd hcrd => absurd hcrd List.not_mem_nil, fun p hp => ?_,
    ⟨_, _, _, _, hoperator, hdeployment⟩⟩
  rw [List.mem_singleton.mp hp]
  exact ⟨_, _, _, _, hrole, hpermission⟩

/-- The small document is an assembled one. -/
theorem isAssembled_of_smallDocument {template role : String} {csv : Value}
    (h : smallDocument template role = .ok csv) : IsAssembled csv := by
  rcases bind_eq_ok_iff.mp h with ⟨d, hd, h⟩
  rcases bind_eq_ok_iff.mp h with ⟨document, htemplate, h⟩
  exact ⟨"t", template, document, d, htemplate, isSummary_of_smallDescriptor hd, h⟩

/-- A small document is restored. -/
theorem isRestored_small :
    ∃ d template csv, Manifest.read "t" (smallTemplate "!x ") = .ok template ∧
      smallDescriptor "rules: [1, '1']" = .ok d ∧ d.IsSummary ∧ d.assemble "t" template = .ok csv ∧
      csv.IsRestorable ∧ Manifest.IsRestored csv := by
  have hchecked : (smallDocument (smallTemplate "!x ") "rules: [1, '1']").toOption.map
      (fun csv => decide csv.IsRestorable) = some true := by
    decide +kernel
  cases hcsv : smallDocument (smallTemplate "!x ") "rules: [1, '1']" with
  | error e =>
      rw [hcsv] at hchecked
      cases hchecked
  | ok csv =>
      rw [hcsv] at hchecked
      have hrestorable : csv.IsRestorable := of_decide_eq_true (Option.some.inj hchecked)
      rcases bind_eq_ok_iff.mp hcsv with ⟨d, hd, hassemble⟩
      rcases bind_eq_ok_iff.mp hassemble with ⟨template, htemplate, hassemble⟩
      have hsummary := isSummary_of_smallDescriptor hd
      exact ⟨d, template, csv, htemplate, hd, hsummary, hassemble, hrestorable,
        (Descriptor.isRestored_of_assemble htemplate hsummary hassemble).1 hrestorable⟩

/-! ## Small documents that are not restored -/

/-- Sequences inside one another. -/
def nestedSequence : Nat → Value
  | 0 => .sequence []
  | n + 1 => .sequence [nestedSequence n]

theorem isProper_nestedSequence (n : Nat) : (nestedSequence n).IsProper := by
  induction n with
  | zero => exact .sequence fun v hv => absurd hv List.not_mem_nil
  | succ n ih =>
      refine .sequence fun v hv => ?_
      rw [List.mem_singleton.mp hv]
      exact ih

/-- A role whose rules are sequences inside one another. -/
def deepRole (n : Nat) : Value := .mapping [(.string "rules", nestedSequence n)]

theorem isProper_deepRole (n : Nat) : (deepRole n).IsProper := by
  refine .mapping rfl (fun e he => ?_) fun e he => ?_
  · rw [List.mem_singleton.mp he]
    exact .string "rules"
  · rw [List.mem_singleton.mp he]
    exact isProper_nestedSequence n

/-- The text of a role whose rules are nested as deep as a text may nest them. -/
def deepRoleText : String := (Yaml.write (deepRole 126)).getD ""

theorem read_deepRoleText (source : String) :
    Manifest.read source deepRoleText = .ok (deepRole 126) := by
  have hrestorable : (deepRole 126).IsRestorable := by
    decide +kernel
  have hreadable : ∀ name ∈ (deepRole 126).tagNames, Yaml.Property.isReadableTag name = true := by
    decide +kernel
  rcases (Yaml.exists_write_read_iff (isProper_deepRole 126) hreadable).mpr hrestorable with
    ⟨text, hwrite, hread⟩
  rw [deepRoleText, hwrite]
  exact Manifest.read_eq_ok_iff.mpr hread

/-- Can it be told without reading a document again that this would not restore it, or does reading
it fail? -/
def isLost (csv : Value) : Bool :=
  match Yaml.writeChars csv with
  | none => true
  | some text => (csv.tagNames.all Yaml.Property.isReadableTag && !decide csv.IsRestorable) ||
      !(Yaml.readChars text).isOk

/-- What can be told to be lost is not restored. -/
theorem not_isRestored_of_isLost {csv : Value} (hproper : csv.IsProper) (h : isLost csv = true) :
    ¬ Manifest.IsRestored csv := by
  intro hrestored
  rcases (Manifest.isRestored_iff csv).mp hrestored with ⟨text, hwrite, hread⟩
  rcases Option.map_eq_some_iff.mp hwrite with ⟨chars, hchars, rfl⟩
  rw [isLost, hchars] at h
  rcases Bool.or_eq_true_iff.mp h with h | h
  · rw [Bool.and_eq_true, List.all_eq_true, Bool.not_eq_true', decide_eq_false_iff_not] at h
    exact h.2 ((Yaml.exists_write_read_iff hproper h.1).mp ⟨_, hwrite, hread⟩)
  · rw [Yaml.read, String.toList_ofList] at hread
    rw [hread] at h
    cases h

/-- An assembled document is a proper value. -/
theorem isProper_of_isAssembled {csv : Value} (h : IsAssembled csv) : csv.IsProper := by
  rcases h with ⟨source, text, template, d, htemplate, hd, hassemble⟩
  exact Descriptor.isProper_of_assemble hd.isProper (Manifest.isProper_of_read htemplate) hassemble

/-- Do a template and a role make a document that is not restored? -/
def MakeLostDocument (template role : String) : Prop :=
  ∃ csv, smallDocument template role = .ok csv ∧ IsAssembled csv ∧ ¬ Manifest.IsRestored csv

/-- A template and a role whose document can be told to be lost make one that is not restored. -/
theorem makeLostDocument_of_isLost {template role : String}
    (h : (smallDocument template role).toOption.map isLost = some true) :
    MakeLostDocument template role := by
  obtain ⟨csv, hcsv, hlost⟩ := exists_of_toOption_map h
  have hassembled := isAssembled_of_smallDocument hcsv
  exact ⟨csv, hcsv, hassembled, not_isRestored_of_isLost (isProper_of_isAssembled hassembled) hlost⟩

/-- What is not restored: a tag with a comma, a tag whose name begins with an exclamation mark, a
mapping of one entry whose key is such a mapping too, and rules that were nested less deep in their
role. -/
theorem not_isRestored_small :
    MakeLostDocument (smallTemplate "!<!a,b> ") "rules: []" ∧
      MakeLostDocument (smallTemplate "!<!!!a> ") "rules: []" ∧
      MakeLostDocument (smallTemplate "") "rules: [{{a: b}: c}]" ∧
      MakeLostDocument (smallTemplate "") deepRoleText := by
  refine ⟨makeLostDocument_of_isLost ?_, makeLostDocument_of_isLost ?_,
    makeLostDocument_of_isLost ?_, makeLostDocument_of_isLost ?_⟩
  · decide +kernel
  · decide +kernel
  · decide +kernel
  -- the text of the deep role is read by the round trip: to run the reader on it takes too long
  · rw [smallDocument, smallDescriptor, read_deepRoleText, ok_bind]
    decide +kernel

end OperatorBundle
