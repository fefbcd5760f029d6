import OperatorBundle.Manifest.Document

/-!
# Owned resource definitions

The summary of a custom resource definition that a bundle lists among those it owns.
-/

namespace OperatorBundle

open Yaml (Value)

/-- What a bundle says about a resource definition of its own. -/
structure OwnedCrd where
  name : String
  description : String
  displayName : String
  kind : String
  version : String
deriving DecidableEq, Repr, Inhabited

namespace OwnedCrd

/-- Is this entry of a list of versions the one in which resources are stored? -/
def isStorage (entry : Value) : Bool :=
  (entry.asMapping?.bind (·.get? "storage")).bind (·.asBool?) == some true

/-- The version of a definition with several: the one in which resources are stored if there is one,
and else the first. -/
def listedVersion (source : String) (document : Value) : Except BundleError String := do
  let versions ← Manifest.requireSequence document "spec.versions" source
  let index := (versions.findIdx? isStorage).getD 0
  Manifest.requireScalar document ("spec.versions[" ++ toString index ++ "].name") source

/-- The version of a definition.  One that names a single version is not asked for a list. -/
def version? (source : String) (document : Value) : Except BundleError String :=
  if (document.lookup? "spec.version").isSome then
    Manifest.requireScalar document "spec.version" source
  else listedVersion source document

/-- Summarizes a resource definition. -/
def ofDocument (source : String) (document : Value) : Except BundleError OwnedCrd := do
  let name ← Manifest.requireScalar document "metadata.name" source
  let kind ← Manifest.requireScalar document "spec.names.kind" source
  let version ← version? source document
  return { name, description := kind, displayName := kind, kind, version }

/-- The entry in the list of owned definitions. -/
def toValue (crd : OwnedCrd) : Value :=
  .mapping [(.string "name", .string crd.name), (.string "description", .string crd.description),
    (.string "displayName", .string crd.displayName), (.string "kind", .string crd.kind),
    (.string "version", .string crd.version)]

end OwnedCrd

end OperatorBundle
