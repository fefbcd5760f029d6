import OperatorBundle.Proofs.Manifest.Source
import OperatorBundle.Proofs.Yaml.Rebuilt

/-!
# What manifests keep

A property of all parts of a document is kept by whatever is done with manifests: what is asked of
them has it, and so has what is put into them and assembled from them.  What is read as a manifest is
a proper value, so that all values a build comes by are proper.
-/

namespace OperatorBundle

open Yaml (Value Entries)
open Yaml.Value (IsHereditary isHereditary_isProper)

namespace Manifest

/-! ## What is read -/

/-- The source of a manifest has no part in what is read. -/
theorem read_eq_ok_iff {source text : String} {v : Value} :
    read source text = .ok v ↔ Yaml.read text = .ok v := by
  unfold read
  cases Yaml.read text with
  | error defect =>
      constructor
      · intro h
        cases h
      · intro h
        cases h
  | ok w =>
      constructor
      · intro h
        exact congrArg Except.ok (Except.ok.inj h)
      · intro h
        exact congrArg Except.ok (Except.ok.inj h)

/-- What a manifest is read as is a proper value. -/
theorem isProper_of_read {source text : String} {v : Value} (h : read source text = .ok v) :
    v.IsProper :=
  Yaml.isProper_of_read (read_eq_ok_iff.mp h)

/-- So is the first document of a stream. -/
theorem isProper_of_readFirst {source text : String} {v : Value}
    (h : readFirst source text = .ok (some v)) : v.IsProper := by
  unfold readFirst at h
  split at h
  · rename_i w hread
    cases h
    exact Yaml.isProper_of_readFirst hread
  · cases h

end Manifest

namespace Yaml.Value.IsHereditary

variable {P : Value → Prop} {root v : Value} {es fs : Entries} {path source : String}

/-! ## What is asked of manifests -/

/-- A required part has what its document has. -/
theorem of_require (hP : IsHereditary P) (h : P root)
    (hv : Manifest.require root path source = .ok v) : P v :=
  hP.of_lookup? h (Manifest.demand_eq_ok_iff.mp hv)

/-- The items of a required sequence have what their document has. -/
theorem of_requireSequence (hP : IsHereditary P) (h : P root) {vs : List Value}
    (hvs : Manifest.requireSequence root path source = .ok vs) : ∀ v ∈ vs, P v := by
  rcases Option.bind_eq_some_iff.mp (Manifest.demand_eq_ok_iff.mp hvs) with ⟨w, hw, hitems⟩
  exact fun v hv => hP.of_mem_sequence (hP.of_asSequence? (hP.of_lookup? h hw) hitems) hv

/-! ## What is put into manifests -/

/-- A document with a part assigned has what both have. -/
theorem assign (hP : IsHereditary P) (h : P root) {new : Value} (hnew : P new)
    (hv : Manifest.assign root path source new = .ok v) : P v :=
  hP.assign? h hnew (Manifest.demand_eq_ok_iff.mp hv)

/-- A change of entries is one of the document around them. -/
theorem updateMapping (hP : IsHereditary P) (h : P root)
    {change : Entries → Except BundleError Entries}
    (hchange : ∀ es fs, P (.mapping es) → change es = .ok fs → P (.mapping fs))
    (hv : Manifest.updateMapping root path source change = .ok v) : P v := by
  rcases bind_eq_ok_iff.mp hv with ⟨es, hentries, hv⟩
  rcases bind_eq_ok_iff.mp hv with ⟨w, hw, hv⟩
  rcases bind_eq_ok_iff.mp hv with ⟨fs, hfs, hv⟩
  rcases Option.bind_eq_some_iff.mp (Manifest.demand_eq_ok_iff.mp hentries) with ⟨u, hu, hes⟩
  have hchanged : P (.mapping fs) := hchange es fs (hP.of_asMapping? (hP.of_lookup? h hu) hes) hfs
  exact hP.assign h (hP.underTags (hP.of_require h hw) hchanged rfl) hv

/-- A document whose section is changed has what it had, if the change keeps it. -/
theorem ensureMapping (hP : IsHereditary P) (h : P (.mapping es)) {key : String}
    {change : Entries → Entries} (hchange : ∀ fs, P (.mapping fs) → P (.mapping (change fs)))
    (hfs : Manifest.ensureMapping es key source path change = .ok fs) : P (.mapping fs) := by
  have hempty : P (.mapping []) :=
    (hP.mapping_iff []).mpr ⟨rfl, fun e he => absurd he List.not_mem_nil⟩
  unfold Manifest.ensureMapping at hfs
  cases hfound : es.get? key with
  | none =>
      rw [hfound] at hfs
      cases hfs
      exact hP.set h key (hchange [] hempty)
  | some v =>
      rw [hfound] at hfs
      simp only at hfs
      split at hfs
      · cases hfs
        exact hP.set h key (hchange [] hempty)
      · rcases bind_eq_ok_iff.mp hfs with ⟨inner, hinner, hfs⟩
        cases hfs
        have hv : P v := hP.of_get? h hfound
        have hchanged : P (.mapping (change inner)) :=
          hchange inner (hP.of_asMapping? hv (Manifest.demand_eq_ok_iff.mp hinner))
        exact hP.set h key (hP.underTags hv hchanged rfl)

/-! ## The parts of a descriptor -/

/-- A record has different names for its fields. -/
theorem record (hP : IsHereditary P)
    (hdistinct : Yaml.Value.ofEntries.distinct (es.map (·.1)) = true)
    (h : ∀ e ∈ es, (∃ name, e.1 = .string name) ∧ P e.2) : P (.mapping es) := by
  refine (hP.mapping_iff es).mpr ⟨hdistinct, fun e he => ⟨?_, (h e he).2⟩⟩
  rcases (h e he).1 with ⟨name, hname⟩
  exact hname ▸ hP.string name

theorem ownedCrd (hP : IsHereditary P) (crd : OwnedCrd) : P crd.toValue := by
  refine hP.record rfl fun e he => ?_
  simp only [List.mem_cons, List.not_mem_nil, or_false] at he
  rcases he with rfl | rfl | rfl | rfl | rfl <;> exact ⟨⟨_, rfl⟩, hP.string _⟩

/-- The cluster permission has what its rules have. -/
theorem clusterPermission (hP : IsHereditary P) {permission : ClusterPermission}
    (h : ∀ rule ∈ permission.rules, P rule) : P permission.toValue := by
  refine hP.record rfl fun e he => ?_
  simp only [List.mem_cons, List.not_mem_nil, or_false] at he
  rcases he with rfl | rfl
  · refine ⟨⟨_, rfl⟩, (hP.sequence_iff _).mpr fun v hv => ?_⟩
    obtain ⟨rule, hrule, rfl⟩ := List.mem_map.mp hv
    exact hP.rebuilt (h rule hrule)
  · exact ⟨⟨_, rfl⟩, hP.string _⟩

/-- The rules taken from a role have what the role has. -/
theorem of_ofRole (hP : IsHereditary P) {account : String} {role : Value} (h : P role)
    {permission : ClusterPermission}
    (hpermission : ClusterPermission.ofRole source role account = .ok permission) :
    ∀ rule ∈ permission.rules, P rule := by
  rcases bind_eq_ok_iff.mp hpermission with ⟨rules, hrules, hsome⟩
  cases hsome
  exact hP.of_requireSequence h hrules

/-- A deployment has what it had before its image was replaced. -/
theorem withImage (hP : IsHereditary P) {d changed : Deployment} (hd : P d.spec) {image : String}
    (h : d.withImage source image = .ok changed) : P changed.spec := by
  rcases bind_eq_ok_iff.mp h with ⟨spec, hspec, h⟩
  cases h
  have hchanged := Manifest.demand_eq_ok_iff.mp hspec
  rcases Option.bind_eq_some_iff.mp hchanged with ⟨container, hcontainer, hspec⟩
  rcases Option.bind_eq_some_iff.mp hspec with ⟨es, hes, hassign⟩
  have hcontainer : P container := hP.of_lookup? hd hcontainer
  have himage := hP.set (hP.of_asMapping? hcontainer hes) "image" (hP.string image)
  exact hP.assign? hd (hP.underTags hcontainer himage rfl) hassign

/-- What is assembled from a template and a descriptor. -/
theorem assemble (hP : IsHereditary P) {d : Descriptor}
    (hrules : ∀ permission ∈ d.clusterPermissions, ∀ rule ∈ permission.rules, P rule)
    (hdeployment : P d.deployment.spec) {template csv : Value} (htemplate : P template)
    (h : d.assemble source template = .ok csv) : P csv := by
  rcases bind_eq_ok_iff.mp h with ⟨first, hfirst, h⟩
  rcases bind_eq_ok_iff.mp h with ⟨second, hsecond, h⟩
  rcases bind_eq_ok_iff.mp h with ⟨third, hthird, h⟩
  -- four sections are filled in one after the other, and each step keeps what the template has
  have hfirst : P first :=
    hP.updateMapping htemplate (fun es fs hes hfs => by
      cases hfs
      exact hP.set hes "spec" hdeployment) hfirst
  have hpermissions : P (.sequence (d.clusterPermissions.map ClusterPermission.toValue)) := by
    refine (hP.sequence_iff _).mpr fun v hv => ?_
    rcases List.mem_map.mp hv with ⟨permission, hpermission, rfl⟩
    exact hP.clusterPermission (hrules permission hpermission)
  have hsecond : P second :=
    hP.updateMapping hfirst (fun es fs hes hfs => by
      cases hfs
      exact hP.set hes "clusterPermissions" hpermissions) hsecond
  have howned : P (.sequence (d.ownedCrds.map OwnedCrd.toValue)) := by
    refine (hP.sequence_iff _).mpr fun v hv => ?_
    rcases List.mem_map.mp hv with ⟨crd, _, rfl⟩
    exact hP.ownedCrd crd
  have hthird : P third :=
    hP.updateMapping hsecond (fun es fs hes hfs => by
      rcases bind_eq_ok_iff.mp hfs with ⟨spec, hspec, hfs⟩
      cases hfs
      have hsection := hP.ensureMapping hes (fun gs hgs => hP.set hgs "owned" howned) hspec
      exact hP.set (hP.set hsection "version" (hP.string d.version)) "replaces"
        (hP.string d.replaces)) hthird
  exact hP.updateMapping hthird (fun es fs hes hfs =>
    hP.ensureMapping (hP.set hes "name" (hP.string d.name))
      (fun gs hgs => hP.set hgs "createdAt" (hP.string d.createdAt.stamp)) hfs) h

end Yaml.Value.IsHereditary

/-! ## Proper parts -/

theorem Deployment.isProper_of_ofStream {source text : String} {d : Deployment}
    (h : ofStream source text = .ok d) : d.spec.IsProper := by
  rcases bind_eq_ok_iff.mp h with ⟨first, hfirst, h⟩
  rcases bind_eq_ok_iff.mp h with ⟨document, hdocument, h⟩
  rcases bind_eq_ok_iff.mp h with ⟨spec, hspec, h⟩
  cases h
  rw [Manifest.demand_eq_ok_iff.mp hdocument] at hfirst
  exact isHereditary_isProper.of_require (Manifest.isProper_of_readFirst hfirst) hspec

namespace Descriptor

/-- Are all parts of a descriptor proper values? -/
structure IsProper (d : Descriptor) : Prop where
  rules : ∀ permission ∈ d.clusterPermissions, ∀ rule ∈ permission.rules, rule.IsProper
  deployment : d.deployment.spec.IsProper

/-- What is assembled from a proper template and a proper descriptor is proper. -/
theorem isProper_of_assemble {d : Descriptor} (hd : d.IsProper) {source : String}
    {template csv : Value} (htemplate : template.IsProper)
    (h : d.assemble source template = .ok csv) : csv.IsProper :=
  isHereditary_isProper.assemble hd.rules hd.deployment htemplate h

end Descriptor

end OperatorBundle
