import OperatorBundle.Manifest.Descriptor
import OperatorBundle.Proofs.Outcome
import OperatorBundle.Store.Memory

/-!
# The source that an error names

Every function that reads a document or asks something of it is given the source of the document, and
every failure of it names that source.
-/

namespace OperatorBundle

open Store (Memory)
open Yaml (Value)

/-! ## Names -/

/-- The input that an error is about, if it is about one. -/
def BundleError.path? : BundleError → Option String
  | .notFound path | .malformed path _ | .missingField path _ => some path
  | .io _ | .configuration _ | .configurationSyntax _ | .unrenderable _ => none

/-- Does every failure name this source? -/
def Names {α : Type} (source : String) (x : Except BundleError α) : Prop :=
  ∀ e, x = .error e → e.path? = some source

theorem names_ok {α : Type} (source : String) (a : α) : Names source (.ok a) := by
  intro e h
  cases h

theorem Names.bind {α β : Type} {source : String} {x : Except BundleError α}
    {f : α → Except BundleError β} (hx : Names source x) (hf : ∀ a, Names source (f a)) :
    Names source (x >>= f) := by
  intro e h
  rcases bind_eq_error_iff.mp h with h | ⟨a, _, h⟩
  · exact hx e h
  · exact hf a e h

namespace Manifest

theorem names_read (source text : String) : Names source (Manifest.read source text) := by
  intro e h
  unfold Manifest.read at h
  split at h
  · cases h
  · rw [← Except.error.inj h]
    rfl

theorem names_readFirst (source text : String) : Names source (readFirst source text) := by
  intro e h
  unfold readFirst at h
  split at h
  · cases h
  · rw [← Except.error.inj h]
    rfl

theorem names_demand {α : Type} (source path : String) (a : Option α) :
    Names source (demand source path a) := by
  intro e h
  cases a with
  | none =>
      rw [← Except.error.inj h]
      rfl
  | some a => cases h

/-- What is demanded is there. -/
theorem demand_eq_ok_iff {α : Type} {source path : String} {found : Option α} {a : α} :
    demand source path found = .ok a ↔ found = some a := by
  cases found with
  | none =>
      constructor
      · intro h
        cases h
      · intro h
        cases h
  | some b =>
      constructor
      · intro h
        exact congrArg some (Except.ok.inj h)
      · intro h
        exact congrArg Except.ok (Option.some.inj h)

end Manifest

theorem Store.Memory.names_read (store : Memory) (p : Path) : Names p.text (store.read p) := by
  intro e h
  unfold Memory.read at h
  split at h
  · cases h
  · rw [← Except.error.inj h]
    rfl

theorem Store.Memory.names_list (store : Memory) (p : Path) : Names p.text (store.list p) := by
  intro e h
  unfold Memory.list at h
  simp only at h
  split at h
  · rw [← Except.error.inj h]
    rfl
  · cases h

theorem OwnedCrd.names_version? (source : String) (document : Value) :
    Names source (OwnedCrd.version? source document) := by
  unfold OwnedCrd.version?
  split
  · exact Manifest.names_demand source _ _
  · exact (Manifest.names_demand source _ _).bind fun versions =>
      Manifest.names_demand source _ _

end OperatorBundle
