import OperatorBundle.Error
import OperatorBundle.Yaml.Document
import OperatorBundle.Yaml.Layout.Block
import OperatorBundle.Yaml.Value.Access

/-!
# Manifests

A manifest is a YAML document from a named source.  What is asked of it and missing is reported with
the source and the path where it was expected.
-/

namespace OperatorBundle.Manifest

open Yaml (Value Entries)

/-! ## Reading and writing -/

/-- Reads a manifest of one document. -/
def read (source text : String) : Except BundleError Value :=
  match Yaml.read text with
  | .ok v => .ok v
  | .error defect => .error (.malformed source defect.message)

/-- Reads the first document of a manifest; `none` if there is none, or it is null. -/
def readFirst (source text : String) : Except BundleError (Option Value) :=
  match Yaml.readFirst text with
  | .ok v => .ok v
  | .error defect => .error (.malformed source defect.message)

/-- Writes a document. -/
def render (v : Value) : Except BundleError String :=
  match Yaml.write v with
  | some text => .ok text
  | none => .error (.unrenderable "expected SCALAR, SEQUENCE-START, MAPPING-START, or ALIAS")

/-! ## What is asked of a document -/

/-- What is there, or else a report that it is missing at `path`. -/
def demand {α : Type} (source path : String) : Option α → Except BundleError α
  | some a => .ok a
  | none => .error (.missingField source path)

/-- The value at a path. -/
def require (root : Value) (path source : String) : Except BundleError Value :=
  demand source path (root.lookup? path)

/-- The text of the scalar at a path. -/
def requireScalar (root : Value) (path source : String) : Except BundleError String :=
  demand source path ((root.lookup? path).bind (·.scalarText?))

/-- The items of the sequence at a path. -/
def requireSequence (root : Value) (path source : String) : Except BundleError (List Value) :=
  demand source path ((root.lookup? path).bind (·.asSequence?))

/-- The entries of the mapping at a path. -/
def requireMapping (root : Value) (path source : String) : Except BundleError Entries :=
  demand source path ((root.lookup? path).bind (·.asMapping?))

/-- Puts another value at a path, which must be there. -/
def assign (root : Value) (path source : String) (new : Value) : Except BundleError Value :=
  demand source path (root.assign? path new)

/-- Changes the entries of the mapping at a path, which keeps its tags. -/
def updateMapping (root : Value) (path source : String)
    (change : Entries → Except BundleError Entries) : Except BundleError Value := do
  let entries ← requireMapping root path source
  let v ← require root path source
  assign root path source (v.underTags (.mapping (← change entries)))

/-- Changes the entries of the mapping under a key.  Where nothing or null stands under the key an
empty mapping is taken; `path` says where the mapping was expected. -/
def ensureMapping (entries : Entries) (key source path : String) (change : Entries → Entries) :
    Except BundleError Entries :=
  match entries.get? key with
  | none => .ok (entries.set key (.mapping (change [])))
  | some v =>
      if v.isNull then .ok (entries.set key (.mapping (change [])))
      else do
        let inner ← demand source path v.asMapping?
        return entries.set key (v.underTags (.mapping (change inner)))

end OperatorBundle.Manifest
