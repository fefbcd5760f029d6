import OperatorBundle.Manifest.Document

/-!
# The deployment

The specification of the operator's deployment, into which the image of its first container is put.
-/

namespace OperatorBundle

open Yaml (Value)

/-- How the operator is deployed. -/
structure Deployment where
  spec : Value
deriving Repr, Inhabited

namespace Deployment

/-- Where the operator's container stands in the specification. -/
def containerPath : String := "template.spec.containers[0]"

/-- Takes the specification from the first document of a manifest. -/
def ofStream (source text : String) : Except BundleError Deployment := do
  let document ← Manifest.demand source "<first document>" (← Manifest.readFirst source text)
  return { spec := ← Manifest.require document "spec" source }

/-- Sets the image of the operator's container. -/
def withImage (d : Deployment) (source image : String) : Except BundleError Deployment :=
  let changed := do
    let container ← d.spec.lookup? containerPath
    let entries ← container.asMapping?
    d.spec.assign? containerPath
      (container.underTags (.mapping (entries.set "image" (.string image))))
  return { spec := ← Manifest.demand source ("spec." ++ containerPath) changed }

end Deployment

end OperatorBundle
