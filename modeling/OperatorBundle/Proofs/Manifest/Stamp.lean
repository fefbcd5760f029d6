import OperatorBundle.Proofs.Manifest.Source
import OperatorBundle.Proofs.Yaml.Access

/-!
# The stamp of a descriptor

The instant of a build has a part in one place of its descriptor, `metadata.annotations.createdAt`.
-/

namespace OperatorBundle

open Yaml (Entries Step Value)

/-- The second result is the first with another value in one place; failures are the same. -/
structure DiffersAt (steps : List Step) (new : Value) (x y : Except BundleError Value) : Prop where
  ok : ∀ v, x = .ok v → ∃ w, y = .ok w ∧ v.replace? new steps = some w
  error : ∀ e, x = .error e → y = .error e

theorem differsAt_error (steps : List Step) (new : Value) (e : BundleError) :
    DiffersAt steps new (.error e) (.error e) where
  ok _ h := nomatch h
  error _ h := h

theorem differsAt_ok {steps : List Step} {new v w : Value} (h : v.replace? new steps = some w) :
    DiffersAt steps new (.ok v) (.ok w) where
  ok _ hv := ⟨w, rfl, Except.ok.inj hv ▸ h⟩
  error _ he := nomatch he

theorem DiffersAt.bind {steps : List Step} {new : Value} {α : Type} (x : Except BundleError α)
    {f g : α → Except BundleError Value} (h : ∀ a, DiffersAt steps new (f a) (g a)) :
    DiffersAt steps new (x >>= f) (x >>= g) := by
  cases x with
  | error e => exact differsAt_error steps new e
  | ok a => exact h a

/-- Either both have failed alike, or both have results. -/
theorem DiffersAt.cases {steps : List Step} {new : Value} {α : Type} {f : α → Value}
    {x y : Except BundleError α} (h : DiffersAt steps new (x.map f) (y.map f)) :
    (∃ e, x = .error e ∧ y = .error e) ∨
      ∃ a b, x = .ok a ∧ y = .ok b ∧ (f a).replace? new steps = some (f b) := by
  cases x with
  | error e =>
      have hother := h.error e rfl
      cases y with
      | error e' =>
          cases hother
          exact .inl ⟨e, rfl, rfl⟩
      | ok b => cases hother
  | ok a =>
      obtain ⟨w, hother, hw⟩ := h.ok (f a) rfl
      cases y with
      | error e => cases hother
      | ok b =>
          cases hother
          exact .inr ⟨a, b, rfl, rfl, hw⟩

namespace Manifest

/-- A field of the mapping under a key has its value in one place. -/
theorem ensureMapping_differsAt (entries : Entries) (key source path field : String)
    (a b : Value) :
    DiffersAt [.key key, .key field] b
      ((ensureMapping entries key source path (·.set field a)).map .mapping)
      ((ensureMapping entries key source path (·.set field b)).map .mapping) := by
  have hplace : ∀ (v : Value) (inner : Entries),
      (Value.mapping (entries.set key (v.underTags (.mapping (inner.set field a))))).replace? b
        [.key key, .key field] =
      some (.mapping (entries.set key (v.underTags (.mapping (inner.set field b))))) := by
    intro v inner
    rw [Value.replace?_set, Value.replace?_underTags, Value.replace?_set]
    rfl
  unfold ensureMapping
  cases entries.get? key with
  | none => exact differsAt_ok (hplace .null [])
  | some v =>
      simp only
      split
      · exact differsAt_ok (hplace .null [])
      · cases v.asMapping? with
        | none => exact differsAt_error _ _ _
        | some inner => exact differsAt_ok (hplace v inner)

/-- A change to the mapping under a key that has its value in one place. -/
theorem updateMapping_differsAt {path key : String} (hpath : Yaml.Path.steps? path = some [.key key])
    {change other : Entries → Except BundleError Entries} {step : Step} {steps : List Step}
    {new : Value} (h : ∀ entries, DiffersAt (step :: steps) new
      ((change entries).map .mapping) ((other entries).map .mapping))
    (root : Value) (source : String) :
    DiffersAt (.key key :: step :: steps) new (updateMapping root path source change)
      (updateMapping root path source other) := by
  refine DiffersAt.bind _ fun entries => ?_
  have hlookup := Value.lookup?_of_step root hpath
  cases hchild : root.child? (.key key) with
  | none =>
      rw [require, hlookup, hchild]
      exact differsAt_error _ _ _
  | some v =>
      have hassign : ∀ u, assign root path source u = .ok (root.setChild (.key key) u) := by
        intro u
        rw [assign, Value.assign?, hpath]
        show demand source path (root.replace? u [.key key]) = _
        rw [Value.replace?, hchild]
        rfl
      rw [require, hlookup, hchild]
      simp only [demand, hassign]
      show DiffersAt _ _ (change entries >>= _) (other entries >>= _)
      rcases (h entries).cases with ⟨e, hfirst, hsecond⟩ | ⟨first, second, hfirst, hsecond, hplace⟩
      · rw [hfirst, hsecond]
        exact differsAt_error _ _ e
      · rw [hfirst, hsecond]
        refine differsAt_ok ?_
        rw [Value.replace?_setChild hchild, Value.replace?_underTags, hplace]
        rfl

end Manifest

/-- Of two descriptors made at different times the second is the first with another stamp. -/
theorem Descriptor.assemble_differsAt (d : Descriptor) (now : Calendar.Instant) (source : String)
    (template : Value) :
    DiffersAt [.key "metadata", .key "annotations", .key "createdAt"] (.string now.stamp)
      (d.assemble source template) (({ d with createdAt := now }).assemble source template) := by
  unfold Descriptor.assemble
  refine DiffersAt.bind _ fun csv => DiffersAt.bind _ fun csv => DiffersAt.bind _ fun csv => ?_
  refine Manifest.updateMapping_differsAt (by decide) (fun metadata => ?_) csv source
  exact Manifest.ensureMapping_differsAt _ _ _ _ _ _ _

end OperatorBundle
