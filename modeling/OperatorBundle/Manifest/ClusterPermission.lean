import OperatorBundle.Manifest.Document
import OperatorBundle.Yaml.Value.Rebuilt

/-!
# Cluster permissions

The rules of a cluster role, bound to a service account.
-/

namespace OperatorBundle

open Yaml (Value)

/-- What a service account may do in the whole cluster. -/
structure ClusterPermission where
  rules : List Value
  serviceAccountName : String
deriving Repr, Inhabited

namespace ClusterPermission

/-- Binds the rules of a role to a service account. -/
def ofRole (source : String) (role : Value) (serviceAccount : String) :
    Except BundleError ClusterPermission := do
  return { rules := ← Manifest.requireSequence role "rules" source
           serviceAccountName := serviceAccount }

/-- The entry in the list of permissions, with the rules made anew. -/
def toValue (permission : ClusterPermission) : Value :=
  .mapping [(.string "rules", .sequence (permission.rules.map Value.rebuilt)),
    (.string "serviceAccountName", .string permission.serviceAccountName)]

end ClusterPermission

end OperatorBundle
