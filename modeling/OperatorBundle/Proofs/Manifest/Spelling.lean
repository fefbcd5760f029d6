import OperatorBundle.Proofs.Manifest.Proper
import OperatorBundle.Proofs.Manifest.Summary
import OperatorBundle.Proofs.Yaml.Held
import OperatorBundle.Proofs.Yaml.Scalar.Canonical

/-!
# Numbers and truth values as texts

What a manifest gives as a text where a plain scalar is written that spells a truth value or a number.
The value keeps no trace of how it was spelled, so that the text is the spelling in which the value is
written; it is the one that stands in the document exactly if that is this spelling.
-/

namespace OperatorBundle

open Yaml (Value Step)

namespace Manifest

section

variable {source content path : String} {document v : Value} {steps : List Step} {text : List Char}

/-- Where a document holds such a scalar, its text there is the spelling that is written. -/
theorem exists_hasTextAt_of_holds (hread : read source content = .ok document)
    (hholds : Yaml.Holds content steps text) (hspelled : Value.ofPlain text = .ok v)
    (htyped : v.IsTyped) :
    ∃ written, Value.IsWritten text written ∧ document.HasTextAt steps written := by
  obtain ⟨found, hfound, hplain⟩ := hholds.follow? (read_eq_ok_iff.mp hread)
  obtain rfl : found = v := Except.ok.inj (hplain.symm.trans hspelled)
  obtain ⟨written, hwritten, hspelling⟩ := Value.exists_isWritten hspelled htyped
  refine ⟨written, hspelling, Value.hasTextAt_iff.mpr ?_⟩
  rw [hfound]
  exact hwritten

end

end Manifest

namespace OwnedCrd

/-- A plain scalar that is typed as a truth value or a number is taken in the spelling in which its
value is written, and so exactly as it stands in the document if that is this spelling.  The summary of
a definition has the same text where the scalar is its name, its kind or its version. -/
theorem isWritten_of_holds {source content path : String} {document v : Value} {steps : List Step}
    {text : List Char} (hread : Manifest.read source content = .ok document)
    (hpath : Yaml.Path.steps? path = some steps) (hholds : Yaml.Holds content steps text)
    (hspelled : Value.ofPlain text = .ok v) (htyped : v.IsTyped) :
    ∃ written, Value.IsWritten text written ∧
      Manifest.requireScalar document path source = .ok written ∧
      ∀ crd : OwnedCrd, crd.Summarizes document →
        (∀ items, Lists document items → items.length ≤ Yaml.Path.positionLimit) →
        ofDocument source document = .ok crd ∧
          (steps = nameSteps → crd.name = written) ∧
          (steps = kindSteps → crd.kind = written) ∧
          ∀ field, NamesVersion document steps field → crd.version = written := by
  obtain ⟨written, hwritten, htext⟩ :=
    Manifest.exists_hasTextAt_of_holds hread hholds hspelled htyped
  refine ⟨written, hwritten, requireScalar_eq_ok hpath htext, fun crd hcrd hfits => ?_⟩
  refine ⟨hcrd.ofDocument_eq hfits, ?_, ?_, ?_⟩
  · rintro rfl
    exact hcrd.name.unique htext
  · rintro rfl
    exact hcrd.kind.unique htext
  · intro field hfield
    obtain ⟨others, other, hother, hversion⟩ := hcrd.version
    obtain rfl := hfield.unique hother
    exact hversion.unique htext

/-! ## A version with a zero at the end -/

/-- A definition whose version is spelled like a fraction. -/
def unquotedDefinition : String :=
  "metadata: \x7bname: a\x7d\nspec: \x7bnames: \x7bkind: K\x7d, version: 1.10\x7d\n"

/-- The nodes of that definition. -/
def unquotedNode (α : Type) : Yaml.Node α :=
  let plain (text : String) : Yaml.Node α := .scalar {} text.toList true
  .mapping {} [
    (plain "metadata", .mapping {} [(plain "name", plain "a")]),
    (plain "spec", .mapping {} [
      (plain "names", .mapping {} [(plain "kind", plain "K")]), (plain "version", plain "1.10")])]

theorem holds_unquoted : Yaml.Holds unquotedDefinition versionSteps "1.10".toList := by
  have hmeans : ∀ {p : Yaml.Properties Nat} {text : List Char} {plain : Bool},
      Yaml.LinkedDocument.Means ⟨unquotedNode Nat, []⟩ (.scalar p text plain) (.scalar p text plain) :=
    .itself fun number h => nomatch h
  refine ⟨unquotedNode _, ⟨unquotedNode _, []⟩, unquotedNode _, rfl, rfl, .itself ?_, ?_⟩
  · exact fun number h => nomatch h
  · refine .key (.tail _ (.head _)) hmeans rfl rfl (.itself fun number h => nomatch h) ?_
    exact .key (.tail _ (.head _)) hmeans rfl rfl hmeans .here

/-- The version of that definition is typed, and its text lacks the last digit. -/
theorem exists_read_unquoted :
    ∃ document v, Manifest.read "d" unquotedDefinition = .ok document ∧
      Value.ofPlain "1.10".toList = .ok v ∧ v.IsTyped ∧
      Manifest.requireScalar document "spec.version" "d" = .ok "1.1" ∧
      (ofDocument "d" document).isOk = true ∧ document.follow? versionsSteps = none := by
  have hchecked : (Manifest.read "d" unquotedDefinition).toOption.map (fun document =>
      (Manifest.requireScalar document "spec.version" "d").toOption == some "1.1" &&
        (ofDocument "d" document).isOk && (document.follow? versionsSteps).isNone) = some true := by
    decide +kernel
  have htyped : (Value.ofPlain "1.10".toList).toOption.map (fun v => decide v.IsTyped) = some true := by
    decide +kernel
  obtain ⟨document, hread, hall⟩ := exists_of_toOption_map hchecked
  obtain ⟨v, hv, hdecided⟩ := exists_of_toOption_map htyped
  rw [Bool.and_eq_true, Bool.and_eq_true, beq_iff_eq, Option.isNone_iff_eq_none] at hall
  obtain ⟨⟨hversion, hok⟩, hnone⟩ := hall
  exact ⟨document, v, hread, hv, of_decide_eq_true hdecided, eq_ok_of_toOption hversion, hok, hnone⟩

/-- The text of the version is what is written of the number, and so is the version in the summary. -/
theorem isWritten_unquoted :
    ∃ document v written crd, Manifest.read "d" unquotedDefinition = .ok document ∧
      Yaml.Path.steps? "spec.version" = some versionSteps ∧
      Yaml.Holds unquotedDefinition versionSteps "1.10".toList ∧
      Value.ofPlain "1.10".toList = .ok v ∧ v.IsTyped ∧ Value.IsWritten "1.10".toList written ∧
      Manifest.requireScalar document "spec.version" "d" = .ok written ∧ written = "1.1" ∧
      ofDocument "d" document = .ok crd ∧ crd.version = written := by
  obtain ⟨document, v, hread, hv, htyped, hversion, hok, hnone⟩ := exists_read_unquoted
  obtain ⟨written, hwritten, htext, hsummary⟩ :=
    isWritten_of_holds hread steps?_version holds_unquoted hv htyped
  have hsame : written = "1.1" := Except.ok.inj (htext.symm.trans hversion)
  have hfits : ∀ items, Lists document items → items.length ≤ Yaml.Path.positionLimit := by
    intro items hitems
    rw [Lists, hnone] at hitems
    cases hitems
  obtain ⟨crd, hcrd⟩ | ⟨field, hfield⟩ := summarizes_or_isFirstMissing document
  · obtain ⟨hdocument, _, _, hfields⟩ := hsummary crd hcrd hfits
    obtain ⟨found, hfound, _⟩ := holds_unquoted.follow? (Manifest.read_eq_ok_iff.mp hread)
    exact ⟨document, v, written, crd, hread, steps?_version, holds_unquoted, hv, htyped, hwritten,
      htext, hsame, hdocument, hfields _ (.single hfound)⟩
  · have herror : ofDocument "d" document = _ := hfield.ofDocument_eq hfits
    rw [herror] at hok
    cases hok

/-- Numbers do not keep the spelling that they have in a document. -/
theorem not_verbatim_unquoted :
    ¬ ∀ (source content path : String) (document v : Value) (steps : List Step) (text : List Char),
      Manifest.read source content = .ok document → Yaml.Path.steps? path = some steps →
      Yaml.Holds content steps text → Value.ofPlain text = .ok v → v.IsTyped →
      Manifest.requireScalar document path source = .ok (String.ofList text) := by
  intro hverbatim
  obtain ⟨document, v, hread, hv, htyped, hversion, _, _⟩ := exists_read_unquoted
  have hsame := hverbatim "d" unquotedDefinition "spec.version" document v versionSteps
    "1.10".toList hread steps?_version holds_unquoted hv htyped
  rw [hversion] at hsame
  exact absurd (Except.ok.inj hsame) (by decide)

end OwnedCrd

end OperatorBundle
