import OperatorBundle.Manifest.Deployment
import OperatorBundle.Proofs.Manifest.Proper
import OperatorBundle.Proofs.Yaml.Continued.Document
import OperatorBundle.Proofs.Yaml.Node.OfValue

/-!
# Manifests of several documents

Only the first document of a manifest counts where a stream is read, and where a manifest may hold
one document only, the two ways to read it agree.
-/

namespace OperatorBundle.Manifest

open Yaml (Value isAdmissible)
open Yaml.Value (isNull_eq_true_iff)

theorem readFirst_eq_ok_iff {source text : String} {v : Option Value} :
    readFirst source text = .ok v ↔ Yaml.readFirst text = .ok v := by
  unfold readFirst
  cases Yaml.readFirst text with
  | ok w => simp
  | error defect => simp

/-- The only document of a manifest is also its first, unless it is null. -/
theorem readFirst_of_read {source text : String} {v : Value} (h : read source text = .ok v) :
    readFirst source text = .ok (if v.isNull then none else some v) :=
  readFirst_eq_ok_iff.mpr (Yaml.readFirst_of_read (read_eq_ok_iff.mp h))

/-- A manifest of one document has it as its first, unless it is null, and one whose first document
is malformed cannot be read at all.  Behind a first document of whole lines anything may follow the
line `---`, whether it is YAML or not: the first document stays the same, and with it the
deployment. -/
theorem first_document_counts (source : String) :
    (∀ text v, read source text = .ok v →
      (v.untagged = .null → readFirst source text = .ok none) ∧
      (v.untagged ≠ .null → readFirst source text = .ok (some v))) ∧
    (∀ text e, readFirst source text = .error e → ∃ e', read source text = .error e') ∧
    ∀ first rest v, first.toList.getLast? = some '\n' → readFirst source first = .ok (some v) →
      rest.toList.all isAdmissible = true →
      readFirst source (first ++ "---\n" ++ rest) = .ok (some v) ∧
      Deployment.ofStream source (first ++ "---\n" ++ rest) = Deployment.ofStream source first := by
  refine ⟨fun text v h => ?_, fun text e h => ?_, fun first rest v hlast h hadmissible => ?_⟩
  · have hfirst := readFirst_of_read h
    constructor
    · intro hnull
      rwa [if_pos (isNull_eq_true_iff.mpr hnull)] at hfirst
    · intro hnull
      rwa [if_neg (mt isNull_eq_true_iff.mp hnull)] at hfirst
  · cases hread : read source text with
    | error e' => exact ⟨e', rfl⟩
    | ok v =>
        rw [readFirst_of_read hread] at h
        cases h
  · have hsame : readFirst source (first ++ "---\n" ++ rest) = .ok (some v) :=
      readFirst_eq_ok_iff.mpr
        (Yaml.readFirst_continues hlast hadmissible (readFirst_eq_ok_iff.mp h))
    refine ⟨hsame, ?_⟩
    unfold Deployment.ofStream
    rw [hsame, h]

theorem read_of_node {source text : String} (stream : Yaml.TokenStream)
    {node : Yaml.Node Yaml.AnchorName} {v : Value}
    (hstream : Yaml.TokenStream.ofText text.toList = stream)
    (hnode : Yaml.Node.ofStream stream = .ok (some node))
    (hvalue : Value.ofContent (some node) = .ok v) : read source text = .ok v := by
  refine read_eq_ok_iff.mpr ?_
  rw [Yaml.read, Yaml.readChars, hstream, hnode]
  exact hvalue

/-- A null under a tag, a manifest of one document, a text that is no manifest, and that text behind
the manifest. -/
theorem first_document_counts_spec :
    readFirst "a" "!a null\n" = .ok none ∧
      readFirst "a" "spec: a\n" = .ok (some (.mapping [(.string "spec", .string "a")])) ∧
      (∃ e', read "a" "]\n" = .error e') ∧
      readFirst "a" ("spec: a\n" ++ "---\n" ++ "]\n") =
        .ok (some (.mapping [(.string "spec", .string "a")])) ∧
      Deployment.ofStream "a" ("spec: a\n" ++ "---\n" ++ "]\n") =
        Deployment.ofStream "a" "spec: a\n" := by
  have hnull : read "a" "!a null\n" = .ok (.tagged "a" .null) := by
    have hproper : (Value.tagged "a" .null).IsProper := .tagged (by decide) rfl .null
    have hvalue := (Value.ofContent_nodeOf_iff hproper).mpr ⟨by decide, by decide⟩
    exact read_of_node ⟨[.tag ['!'] [some 'a'], .scalar "null".toList true, .streamEnd], none⟩
      rfl rfl hvalue
  have hspec : read "a" "spec: a\n" = .ok (.mapping [(.string "spec", .string "a")]) := by
    have hproper : (Value.mapping [(.string "spec", .string "a")]).IsProper :=
      .mapping rfl (List.forall_mem_singleton.mpr (.string "spec"))
        (List.forall_mem_singleton.mpr (.string "a"))
    have hvalue := (Value.ofContent_nodeOf_iff hproper).mpr ⟨by decide, nofun⟩
    exact read_of_node ⟨[.blockMappingStart, .key, .scalar "spec".toList true, .value,
      .scalar ['a'] true, .blockEnd, .streamEnd], none⟩ rfl rfl hvalue
  obtain ⟨hagrees, hfails, hcontinues⟩ := first_document_counts "a"
  have hfirst := (hagrees "spec: a\n" _ hspec).2 nofun
  obtain ⟨hsame, hdeployment⟩ := hcontinues "spec: a\n" "]\n" _ rfl hfirst rfl
  exact ⟨(hagrees "!a null\n" _ hnull).1 rfl, hfirst, hfails "]\n" _ rfl, hsame, hdeployment⟩

end OperatorBundle.Manifest
