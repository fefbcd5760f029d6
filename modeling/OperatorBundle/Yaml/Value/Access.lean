import OperatorBundle.Yaml.Path
import OperatorBundle.Yaml.Value.Basic

/-!
# Parts of a document

Looking up the value at a path, and putting another in its place.  Steps look through tags, and what
is put in place stays under the tags of the values around it.
-/

namespace OperatorBundle.Yaml.Value

/-- The value one step away. -/
def child? (v : Value) : Step → Option Value
  | .key name => v.asMapping?.bind (·.get? name)
  | .index position => v.asSequence?.bind (·[position]?)

/-- Puts another value one step away, where there is one. -/
def setChild (v : Value) (step : Step) (child : Value) : Value :=
  match step with
  | .key name =>
      match v.asMapping? with
      | some entries => v.underTags (mapping (entries.set name child))
      | none => v
  | .index position =>
      match v.asSequence? with
      | some items => v.underTags (sequence (items.set position child))
      | none => v

/-- The value some steps away. -/
def follow? : Value → List Step → Option Value
  | v, [] => some v
  | v, step :: steps => do (← v.child? step).follow? steps

/-- Puts another value some steps away, where there is one. -/
def replace? (v : Value) (new : Value) : List Step → Option Value
  | [] => some new
  | step :: steps => do
      let child ← v.child? step
      return v.setChild step (← child.replace? new steps)

/-- The value at a path. -/
def lookup? (v : Value) (path : String) : Option Value :=
  Path.steps? path >>= v.follow?

/-- Puts another value at a path, where there is one. -/
def assign? (v : Value) (path : String) (new : Value) : Option Value :=
  Path.steps? path >>= v.replace? new

end OperatorBundle.Yaml.Value
