import OperatorBundle.Build
import OperatorBundle.Proofs.Manifest.RoundTrip
import OperatorBundle.Proofs.Store.Memory
import OperatorBundle.Proofs.Yaml.UniqueKeys

/-!
# No key is repeated

No mapping in what is read as a manifest has two equal keys, nothing that is done with manifests
repeats one, and so no document is rendered that has one (`hasUniqueKeys_throughout`).  A build, on
whatever store, writes nothing but a rendered document of this kind (`exists_rendered_of_run`).
-/

namespace OperatorBundle

open Calendar (Instant)
open Yaml (Value Entries)
open Yaml.Value (HasUniqueKeys isHereditary_hasUniqueKeys isHereditary_isProper)

/-! ## What a build renders -/

namespace Build

variable {σ α : Type} {s s' : σ}

theorem eq_ok_of_run_ofExcept {r : Except BundleError α} {a : α}
    (h : (MonadExcept.ofExcept r : StoreM σ α).run s = (.ok a, s')) : r = .ok a := by
  rw [StoreM.run_ofExcept] at h
  exact congrArg Prod.fst h

variable [FileStore (StoreM σ)]

theorem isProper_of_readManifest {p : Path} {v : Value}
    (h : (readManifest p : StoreM σ Value).run s = (.ok v, s')) : v.IsProper := by
  obtain ⟨text, s₁, _, h⟩ := StoreM.exists_of_run_bind_eq_ok h
  exact Manifest.isProper_of_read (eq_ok_of_run_ofExcept h)

theorem isProper_of_readPermission {config : Config} {permission : ClusterPermission}
    (h : (readPermission config : StoreM σ ClusterPermission).run s = (.ok permission, s')) :
    ∀ rule ∈ permission.rules, rule.IsProper := by
  obtain ⟨role, s₁, hrole, h⟩ := StoreM.exists_of_run_bind_eq_ok h
  exact isHereditary_isProper.of_ofRole (isProper_of_readManifest hrole) (eq_ok_of_run_ofExcept h)

theorem isProper_of_readDeployment {config : Config} {image : String} {d : Deployment}
    (h : (readDeployment config image : StoreM σ Deployment).run s = (.ok d, s')) :
    d.spec.IsProper := by
  obtain ⟨text, s₁, _, h⟩ := StoreM.exists_of_run_bind_eq_ok h
  obtain ⟨operator, hstream, himage⟩ := bind_eq_ok_iff.mp (eq_ok_of_run_ofExcept h)
  exact isHereditary_isProper.withImage (Deployment.isProper_of_ofStream hstream) himage

/-- The last thing a build does is to write a document with unique keys. -/
theorem exists_rendered_of_run {config : Config} {request : Request} {now : Instant}
    {outcome : Outcome}
    (h : (run config request now : StoreM σ Outcome).run s = (.ok outcome, s')) :
    ∃ csv text s₁, csv.HasUniqueKeys ∧ Manifest.render csv = .ok text ∧
      (FileStore.write outcome.descriptorPath text : StoreM σ Unit).run s₁ = (.ok (), s') := by
  unfold run at h
  obtain ⟨_, _, _, h⟩ := StoreM.exists_of_run_bind_eq_ok h
  obtain ⟨_, _, _, h⟩ := StoreM.exists_of_run_bind_eq_ok h
  obtain ⟨template, _, htemplate, h⟩ := StoreM.exists_of_run_bind_eq_ok h
  obtain ⟨_, _, _, h⟩ := StoreM.exists_of_run_bind_eq_ok h
  obtain ⟨_, _, _, h⟩ := StoreM.exists_of_run_bind_eq_ok h
  obtain ⟨permission, _, hpermission, h⟩ := StoreM.exists_of_run_bind_eq_ok h
  obtain ⟨deployment, _, hdeployment, h⟩ := StoreM.exists_of_run_bind_eq_ok h
  obtain ⟨text, s₁, htext, h⟩ := StoreM.exists_of_run_bind_eq_ok h
  obtain ⟨_, s₂, hwrite, h⟩ := StoreM.exists_of_run_bind_eq_ok h
  obtain ⟨csv, hcsv, hrender⟩ := bind_eq_ok_iff.mp (eq_ok_of_run_ofExcept htext)
  have hproper : csv.IsProper := by
    refine isHereditary_isProper.assemble ?_ (isProper_of_readDeployment hdeployment)
      (isProper_of_readManifest htemplate) hcsv
    intro p hp
    rw [List.mem_singleton.mp hp]
    exact isProper_of_readPermission hpermission
  cases h
  exact ⟨csv, text, s₁, hproper.hasUniqueKeys, hrender, hwrite⟩

end Build

/-! ## What is done with manifests -/

/-- Does a change of the entries of a mapping, where it succeeds, leave keys unique that are? -/
def Manifest.KeepsKeysUnique (change : Entries → Except BundleError Entries) : Prop :=
  ∀ es fs, (Value.mapping es).HasUniqueKeys → change es = .ok fs → (Value.mapping fs).HasUniqueKeys

/-- All that is read has unique keys at every depth.  All changes of the entries of some mapping in a
document keep them unique in the whole document if they do so in the mapping, as do those that put
something under a key or into a mapping that is made where it is missing, and so does another value in
some place.  The same goes for the parts of a descriptor and for what is assembled from them, so that
every document that is made from manifests and then rendered has unique keys, and with it every file
that a build writes. -/
theorem hasUniqueKeys_throughout :
    (∀ source text v, Manifest.read source text = .ok v → v.HasUniqueKeys) ∧
    (∀ source text v, Manifest.readFirst source text = .ok (some v) → v.HasUniqueKeys) ∧
    -- putting something into a document
    (∀ key v, v.HasUniqueKeys → Manifest.KeepsKeysUnique fun es => .ok (es.set key v)) ∧
    (∀ key source path change, Manifest.KeepsKeysUnique (fun es => .ok (change es)) →
      Manifest.KeepsKeysUnique fun es => Manifest.ensureMapping es key source path change) ∧
    (∀ root path source change v, root.HasUniqueKeys → Manifest.KeepsKeysUnique change →
      Manifest.updateMapping root path source change = .ok v → v.HasUniqueKeys) ∧
    (∀ root path source new v, root.HasUniqueKeys → new.HasUniqueKeys →
      Manifest.assign root path source new = .ok v → v.HasUniqueKeys) ∧
    -- the parts of a descriptor
    (∀ (d : Deployment) source image changed, d.spec.HasUniqueKeys →
      d.withImage source image = .ok changed → changed.spec.HasUniqueKeys) ∧
    (∀ crd : OwnedCrd, crd.toValue.HasUniqueKeys) ∧
    (∀ permission : ClusterPermission, (∀ rule ∈ permission.rules, rule.HasUniqueKeys) →
      permission.toValue.HasUniqueKeys) ∧
    (∀ (d : Descriptor) source template csv,
      (∀ permission ∈ d.clusterPermissions, ∀ rule ∈ permission.rules, rule.HasUniqueKeys) →
      d.deployment.spec.HasUniqueKeys → template.HasUniqueKeys →
      d.assemble source template = .ok csv → csv.HasUniqueKeys) ∧
    -- what is rendered
    (∀ (d : Descriptor) source text template csv, Manifest.read source text = .ok template →
      d.IsSummary → d.assemble source template = .ok csv → csv.HasUniqueKeys) ∧
    (∀ (σ : Type) [FileStore (StoreM σ)] (config : Config) (request : Build.Request)
      (now : Instant) (s s' : σ) (outcome : Build.Outcome),
      (Build.run config request now : StoreM σ Build.Outcome).run s = (.ok outcome, s') →
      ∃ csv text s₁, csv.HasUniqueKeys ∧ Manifest.render csv = .ok text ∧
        (FileStore.write outcome.descriptorPath text : StoreM σ Unit).run s₁ = (.ok (), s')) := by
  have hP := isHereditary_hasUniqueKeys
  refine ⟨?_, ?_, ?_, ?_, ?_, ?_, ?_, ?_, ?_, ?_, ?_, ?_⟩
  · intro source text v h
    exact (Manifest.isProper_of_read h).hasUniqueKeys
  · intro source text v h
    exact (Manifest.isProper_of_readFirst h).hasUniqueKeys
  · intro key v hv es fs hes hfs
    cases hfs
    exact hP.set hes key hv
  · intro key source path change hchange es fs hes hfs
    exact hP.ensureMapping hes (fun gs hgs => hchange gs (change gs) hgs rfl) hfs
  · intro root path source change v hroot hchange hv
    exact hP.updateMapping hroot hchange hv
  · intro root path source new v hroot hnew hv
    exact hP.assign hroot hnew hv
  · intro d source image changed hd hchanged
    exact hP.withImage hd hchanged
  · intro crd
    exact hP.ownedCrd crd
  · intro permission hrules
    exact hP.clusterPermission hrules
  · intro d source template csv hrules hdeployment htemplate hcsv
    exact hP.assemble hrules hdeployment htemplate hcsv
  · intro d source text template csv htemplate hd hcsv
    have hproper : csv.IsProper :=
      Descriptor.isProper_of_assemble hd.isProper (Manifest.isProper_of_read htemplate) hcsv
    exact hproper.hasUniqueKeys
  · intro σ _ config request now s s' outcome hrun
    exact Build.exists_rendered_of_run hrun

/-- A mapping with a mapping as key and one behind a tag is put into a template, in place of its slot
and under a new key, and the template is filled in. -/
theorem hasUniqueKeys_nested : ∃ template new slot labelled d csv,
    Manifest.read "t" (smallTemplate "!x ") = .ok template ∧
      Manifest.read "v" "{? {a: b} : !y {c: d}}" = .ok new ∧
      Manifest.assign template "spec.install.spec.deployments[0]" "t" new = .ok slot ∧
      Manifest.updateMapping template "metadata" "t" (fun es =>
        Manifest.ensureMapping es "labels" "t" "metadata.labels" (·.set "l" new)) = .ok labelled ∧
      smallDescriptor "rules: [{a: b}]" = .ok d ∧ d.assemble "t" template = .ok csv ∧
      template.HasUniqueKeys ∧ slot.HasUniqueKeys ∧ labelled.HasUniqueKeys ∧
      csv.HasUniqueKeys := by
  have hok : (do
      let template ← Manifest.read "t" (smallTemplate "!x ")
      let new ← Manifest.read "v" "{? {a: b} : !y {c: d}}"
      let slot ← Manifest.assign template "spec.install.spec.deployments[0]" "t" new
      let labelled ← Manifest.updateMapping template "metadata" "t" fun es =>
        Manifest.ensureMapping es "labels" "t" "metadata.labels" (·.set "l" new)
      let d ← smallDescriptor "rules: [{a: b}]"
      let csv ← d.assemble "t" template
      return (slot, labelled, csv)).isOk = true := by
    decide +kernel
  obtain ⟨_, h⟩ := exists_of_isOk hok
  obtain ⟨template, htemplate, h⟩ := bind_eq_ok_iff.mp h
  obtain ⟨new, hnew, h⟩ := bind_eq_ok_iff.mp h
  obtain ⟨slot, hslot, h⟩ := bind_eq_ok_iff.mp h
  obtain ⟨labelled, hlabelled, h⟩ := bind_eq_ok_iff.mp h
  obtain ⟨d, hd, h⟩ := bind_eq_ok_iff.mp h
  obtain ⟨csv, hcsv, _⟩ := bind_eq_ok_iff.mp h
  obtain ⟨hread, _, hset, hensure, hupdate, hassign, _, _, _, _, hassemble, _⟩ :=
    hasUniqueKeys_throughout
  have hunique : template.HasUniqueKeys := hread _ _ _ htemplate
  have hpart : new.HasUniqueKeys := hread _ _ _ hnew
  exact ⟨template, new, slot, labelled, d, csv, htemplate, hnew, hslot, hlabelled, hd, hcsv, hunique,
    hassign _ _ _ _ _ hunique hpart hslot,
    hupdate _ _ _ _ _ hunique (hensure _ _ _ _ (hset "l" new hpart)) hlabelled,
    hassemble _ _ _ _ _ htemplate (isSummary_of_smallDescriptor hd) hcsv⟩

end OperatorBundle
