import OperatorBundle.Calendar.Instant
import OperatorBundle.Manifest.ClusterPermission
import OperatorBundle.Manifest.Deployment
import OperatorBundle.Manifest.OwnedCrd

/-!
# Descriptors

The document that describes one bundle, a ClusterServiceVersion.  It is a template in which seven
places are filled in; all else, and the order of all keys, stays as it is.
-/

namespace OperatorBundle

open Yaml (Value)

/-- What is filled into the template of a descriptor. -/
structure Descriptor where
  name : String
  version : String
  /-- The name of the descriptor before. -/
  replaces : String
  createdAt : Calendar.Instant
  ownedCrds : List OwnedCrd
  clusterPermissions : List ClusterPermission
  deployment : Deployment
deriving Repr, Inhabited

namespace Descriptor

/-- Where the template has its first deployment. -/
def deploymentPath : String := "spec.install.spec.deployments[0]"

/-- Fills a template in.  Its metadata and its first deployment must be there; annotations and
the section of resource definitions are made where they are missing. -/
def assemble (d : Descriptor) (source : String) (template : Value) : Except BundleError Value := do
  let csv ← Manifest.updateMapping template deploymentPath source fun slot =>
    return slot.set "spec" d.deployment.spec
  let csv ← Manifest.updateMapping csv "spec.install.spec" source fun install =>
    return install.set "clusterPermissions"
      (.sequence (d.clusterPermissions.map ClusterPermission.toValue))
  let csv ← Manifest.updateMapping csv "spec" source fun spec => do
    let owned := Value.sequence (d.ownedCrds.map OwnedCrd.toValue)
    let spec ← Manifest.ensureMapping spec "customresourcedefinitions" source
      "spec.customresourcedefinitions" (·.set "owned" owned)
    let spec := spec.set "version" (.string d.version)
    return spec.set "replaces" (.string d.replaces)
  Manifest.updateMapping csv "metadata" source fun metadata =>
    let metadata := metadata.set "name" (.string d.name)
    Manifest.ensureMapping metadata "annotations" source "metadata.annotations"
      (·.set "createdAt" (.string d.createdAt.stamp))

end Descriptor

end OperatorBundle
