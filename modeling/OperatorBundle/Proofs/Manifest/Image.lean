import OperatorBundle.Proofs.Manifest.Condition
import OperatorBundle.Proofs.Yaml.Change
import OperatorBundle.Proofs.Yaml.Overwrite

/-!
# The image of a deployment

Setting the image of the operator's container is a change of one entry of one mapping.
`Deployment.withImage_decided` says when it can be made and what is reported otherwise, that nothing
else changes, and that of two images only the second stays.
-/

namespace OperatorBundle

open Yaml (Value Entries Step Change Overwrites)
open Yaml.Change (becomes inMapping inFirst inMapping_alter inFirst_alter)

namespace Deployment

open Manifest (Reports isMapping)

/-! ## The way to the container -/

/-- The way to the operator's container in the specification. -/
abbrev containerSteps : List Step := [.key "template", .key "spec", .key "containers", .index 0]

theorem steps?_containerPath : Yaml.Path.steps? containerPath = some containerSteps := by decide

theorem steps?_containerInDocument :
    Yaml.Path.steps? ("spec." ++ containerPath) = some ([.key "spec"] ++ containerSteps) := by decide

/-- What becomes of a specification when the image is set: of its first container the entry `image`
changes, which comes last if it is new. -/
def imageChange (image : String) : Change :=
  inMapping [("template", inMapping [("spec", inMapping [("containers",
    inFirst (inMapping [("image", becomes (.string image))]))])])]

/-! ## The change -/

/-- Sets the image in the mapping of a container. -/
def setImage (image : String) : Value → Value :=
  Value.mapEntries (·.set "image" (.string image))

theorem overwrites_setImage (second first : String) : Overwrites (setImage second) (setImage first) :=
  Overwrites.mapEntries fun entries => Yaml.Entries.set_set entries _ _ _

variable {d changed : Deployment} {source image : String}

/-- The container is altered where it stands, if it is a mapping. -/
theorem withImage_eq (d : Deployment) (source image : String) :
    d.withImage source image =
      Manifest.demand source "spec.template.spec.containers[0]"
          ((d.spec.lookup? containerPath).bind (·.asMapping?)) >>= fun _ =>
        pure ⟨d.spec.alter (setImage image) containerSteps⟩ := by
  have hassign (new : Value) : d.spec.assign? containerPath new = d.spec.replace? new containerSteps := by
    rw [Value.assign?, steps?_containerPath]
    rfl
  have hpath : "spec." ++ containerPath = "spec.template.spec.containers[0]" := by decide
  unfold withImage
  simp only [hassign, hpath, Value.lookup?_eq_follow? d.spec steps?_containerPath]
  cases hcontainer : d.spec.follow? containerSteps with
  | none => rfl
  | some container =>
      -- only a container that is a mapping can be given an image
      cases hentries : container.asMapping? with
      | none =>
          simp only [Option.bind_eq_bind, Option.bind_some, hentries]
          rfl
      | some entries =>
          have hnew : container.underTags (.mapping (entries.set "image" (.string image))) =
              setImage image container := (Value.mapEntries_eq hentries (·.set "image" (.string image))).symm
          simp only [Option.bind_eq_bind, Option.bind_some, hentries, hnew,
            Value.replace?_eq_alter hcontainer]
          rfl

theorem reports_withImage (d : Deployment) (source image : String) :
    Reports source
      [("spec.template.spec.containers[0]", isMapping (d.spec.lookup? containerPath))]
      (d.withImage source image) := by
  rw [withImage_eq]
  exact (Manifest.reports_demand _).bind fun _ _ => Manifest.reports_ok _

theorem spec_of_withImage (h : d.withImage source image = .ok changed) :
    changed.spec = d.spec.alter (setImage image) containerSteps := by
  rw [withImage_eq] at h
  obtain ⟨_, _, h⟩ := bind_eq_ok_iff.mp h
  rw [← Except.ok.inj h]

/-- Only the image of the container changes. -/
theorem imageChange_alter (h : isMapping (d.spec.lookup? containerPath) = true) (image : String) :
    imageChange image (some d.spec) (d.spec.alter (setImage image) containerSteps) := by
  rw [Value.lookup?_eq_follow? d.spec steps?_containerPath] at h
  obtain ⟨entries, h⟩ := Option.isSome_iff_exists.mp h
  obtain ⟨container, h, hentries⟩ := Option.bind_eq_some_iff.mp h
  obtain ⟨template, htemplate, h⟩ := Option.bind_eq_some_iff.mp h
  obtain ⟨pod, hpod, h⟩ := Option.bind_eq_some_iff.mp h
  obtain ⟨containers, hcontainers, h⟩ := Option.bind_eq_some_iff.mp h
  obtain ⟨first, hfirst, hend⟩ := Option.bind_eq_some_iff.mp h
  obtain ⟨items, hitems, hhead⟩ := Option.bind_eq_some_iff.mp hfirst
  cases hend
  cases items with
  | nil => cases hhead
  | cons head rest =>
      cases hhead
      have hset : inMapping [("image", becomes (.string image))] (some container)
          (setImage image container) := (inMapping.refl hentries).set (by simp) rfl
      exact inMapping_alter htemplate _ _ (inMapping_alter hpod _ _
        (inMapping_alter hcontainers _ _ (inFirst_alter hitems (setImage image) [] hset)))

/-- What has been set is found. -/
theorem lookup?_of_imageChange {old new : Value} (h : imageChange image (some old) new) :
    new.lookup? "template.spec.containers[0].image" = some (.string image) := by
  have hpath : Yaml.Path.steps? "template.spec.containers[0].image" =
      some (containerSteps ++ [.key "image"]) := by decide
  obtain ⟨_, template, htemplate, h⟩ := inMapping.child? h (.head _)
  obtain ⟨_, pod, hpod, h⟩ := h.child? (.head _)
  obtain ⟨_, containers, hcontainers, h⟩ := h.child? (.head _)
  obtain ⟨_, container, hcontainer, h⟩ := h.child?
  obtain ⟨_, found, hfound, rfl⟩ := h.child? (.head _)
  rw [Value.lookup?_eq_follow? new hpath]
  simp [Value.follow?, htemplate, hpod, hcontainers, hcontainer, hfound]

/-- Of two images the second stays. -/
theorem withImage_withImage (d : Deployment) (source first second : String) :
    (d.withImage source first >>= (·.withImage source second)) = d.withImage source second := by
  rw [withImage_eq, withImage_eq]
  cases hentries : (d.spec.lookup? containerPath).bind (·.asMapping?) with
  | none => rfl
  | some entries =>
      have hfound : ∃ entries', ((d.spec.alter (setImage first) containerSteps).lookup?
          containerPath).bind (·.asMapping?) = some entries' := by
        rw [Value.lookup?_eq_follow? _ steps?_containerPath] at hentries ⊢
        obtain ⟨container, hcontainer, hmapping⟩ := Option.bind_eq_some_iff.mp hentries
        rw [Value.follow?_alter, hcontainer, Option.map_some, Option.bind_some, setImage,
          Value.asMapping?_mapEntries, hmapping]
        exact ⟨_, rfl⟩
      obtain ⟨entries', hfound⟩ := hfound
      simp only [Manifest.demand, ok_bind, pure_bind, withImage_eq, hfound,
        (overwrites_setImage second first).alter containerSteps d.spec]

/-! ## In the document that the deployment came from -/

/-- The container of a deployment is the one of the document that it came from. -/
theorem lookup?_of_ofStream {text : String} (h : ofStream source text = .ok d) :
    ∃ document, Manifest.readFirst source text = .ok (some document) ∧
      document.lookup? "spec.template.spec.containers[0]" = d.spec.lookup? containerPath := by
  have hspecPath : Yaml.Path.steps? "spec" = some [.key "spec"] := by decide
  obtain ⟨found, hread, h⟩ := bind_eq_ok_iff.mp h
  obtain ⟨document, hdocument, h⟩ := bind_eq_ok_iff.mp h
  obtain ⟨spec, hspec, h⟩ := bind_eq_ok_iff.mp h
  cases h
  cases Manifest.demand_eq_ok_iff.mp hdocument
  have hspec' := Manifest.demand_eq_ok_iff.mp hspec
  rw [Value.lookup?_eq_follow? document hspecPath] at hspec'
  refine ⟨document, hread, ?_⟩
  have hpath : "spec." ++ containerPath = "spec.template.spec.containers[0]" := by decide
  rw [← hpath, Value.lookup?_eq_follow? document steps?_containerInDocument, Value.follow?_append, hspec',
    Option.bind_some, Value.lookup?_eq_follow? spec steps?_containerPath]

/-- The image can be set exactly if the first container is a mapping, with tags or without; otherwise
the container is reported as missing in the document, and is no mapping there.  Nothing but the image
changes, and of two images that are set the second stays. -/
theorem withImage_decided (d : Deployment) (source image : String) :
    ((∃ changed, d.withImage source image = .ok changed) ↔
      isMapping (d.spec.lookup? "template.spec.containers[0]") = true) ∧
    (∀ e, d.withImage source image = .error e →
      e = .missingField source "spec.template.spec.containers[0]" ∧
        ∀ origin text, ofStream origin text = .ok d →
          ∃ document, Manifest.readFirst origin text = .ok (some document) ∧
            isMapping (document.lookup? "spec.template.spec.containers[0]") = false) ∧
    (∀ changed, d.withImage source image = .ok changed →
      imageChange image (some d.spec) changed.spec ∧
        changed.spec.lookup? "template.spec.containers[0].image" = some (.string image)) ∧
    ∀ later, (d.withImage source image >>= (·.withImage source later)) = d.withImage source later := by
  have hreports := reports_withImage d source image
  have hdecided : (∃ changed, d.withImage source image = .ok changed) ↔
      isMapping (d.spec.lookup? containerPath) = true := by
    rw [hreports.ok_iff, List.find?_eq_none]
    simp
  refine ⟨hdecided, ?_, ?_, withImage_withImage d source image⟩
  · intro e he
    obtain ⟨check, hcheck, rfl⟩ := hreports.error_iff.mp he
    have hmem := List.mem_of_find?_eq_some hcheck
    have hunmet := List.find?_some hcheck
    rw [List.mem_singleton.mp hmem] at hunmet ⊢
    refine ⟨rfl, ?_⟩
    intro origin text h
    obtain ⟨document, hread, hlookup⟩ := lookup?_of_ofStream h
    exact ⟨document, hread, by simpa [hlookup] using hunmet⟩
  · intro changed h
    have hchange := imageChange_alter (hdecided.mp ⟨changed, h⟩) image
    rw [← spec_of_withImage h] at hchange
    exact ⟨hchange, lookup?_of_imageChange hchange⟩

end Deployment

end OperatorBundle
