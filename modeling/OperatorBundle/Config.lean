import OperatorBundle.Error
import OperatorBundle.Text.Blank
import OperatorBundle.Toml.Document
import OperatorBundle.Version

/-!
# Configuration

How a bundle is named and where its inputs lie.  Every setting has a default, and none may be blank.
-/

namespace OperatorBundle

/-- The names that are stamped into a bundle. -/
structure Identity where
  /-- The operator, in front of every version. -/
  name : String := "managed-velero-operator"
  /-- The service account that the cluster permissions are bound to. -/
  serviceAccount : String := "managed-velero-operator"
  /-- What every version begins with. -/
  versionBase : String := Version.defaultBase
deriving DecidableEq, Repr, Inhabited

/-- Where the inputs lie. -/
structure Inputs where
  /-- The descriptor that is filled in. -/
  template : String := "config/templates/managed-velero-operator-csv-template.yaml"
  /-- The directory of the resource definitions. -/
  crdDir : String := "deploy/crds"
  /-- What the names of resource definitions end with. -/
  crdSuffix : String := "_crd.yaml"
  /-- The role whose rules become the cluster permissions. -/
  clusterRole : String := "deploy/cluster_role.yaml"
  /-- The manifest of the deployment. -/
  operator : String := "deploy/operator.yaml"
deriving DecidableEq, Repr, Inhabited

/-- The configuration of a build. -/
structure Config where
  bundle : Identity := {}
  inputs : Inputs := {}
deriving DecidableEq, Repr, Inhabited

/-! ## Checking -/

/-- The settings with their names. -/
def Identity.settings (i : Identity) : List (String × String) :=
  [("bundle.name", i.name), ("bundle.service_account", i.serviceAccount),
   ("bundle.version_base", i.versionBase)]

/-- The settings with their names. -/
def Inputs.settings (i : Inputs) : List (String × String) :=
  [("inputs.template", i.template), ("inputs.crd_dir", i.crdDir),
   ("inputs.crd_suffix", i.crdSuffix), ("inputs.cluster_role", i.clusterRole),
   ("inputs.operator", i.operator)]

/-- The settings with their names, in the order in which they are checked. -/
def Config.settings (c : Config) : List (String × String) :=
  c.bundle.settings ++ c.inputs.settings

/-- Refuses settings of which one is blank, and names the first. -/
def checkSettings (settings : List (String × String)) : Except BundleError Unit :=
  match settings.find? fun (_, value) => Text.allBlank value with
  | some (name, _) => .error (.configuration (name ++ " must not be empty"))
  | none => .ok ()

/-- Refuses blank names. -/
def Identity.check (i : Identity) : Except BundleError Unit := checkSettings i.settings

/-- Refuses blank places. -/
def Inputs.check (i : Inputs) : Except BundleError Unit := checkSettings i.settings

/-- Refuses a configuration with a blank setting. -/
def Config.check (c : Config) : Except BundleError Unit := checkSettings c.settings

/-! ## Reading -/

/-- The keys of `bundle`. -/
def Identity.keys : List String := ["name", "service_account", "version_base"]

/-- The keys of `inputs`. -/
def Inputs.keys : List String := ["template", "crd_dir", "crd_suffix", "cluster_role", "operator"]

/-- The strings given under some keys, by key. -/
abbrev Given := List (String × String)

/-- The value given under a key, or its default. -/
def Given.get (given : Given) (key default : String) : String :=
  (given.lookup key).getD default

/-- The names given in a configuration file; all others keep their defaults. -/
def Identity.ofGiven (given : Given) : Identity :=
  let d : Identity := {}
  { name := given.get "name" d.name
    serviceAccount := given.get "service_account" d.serviceAccount
    versionBase := given.get "version_base" d.versionBase }

/-- The places given in a configuration file; all others keep their defaults. -/
def Inputs.ofGiven (given : Given) : Inputs :=
  let d : Inputs := {}
  { template := given.get "template" d.template
    crdDir := given.get "crd_dir" d.crdDir
    crdSuffix := given.get "crd_suffix" d.crdSuffix
    clusterRole := given.get "cluster_role" d.clusterRole
    operator := given.get "operator" d.operator }

/-- The settings of one section, none of them if the section is missing. -/
def section? (document : Toml.Table) (name : String) (keys : List String) : Option Given :=
  match document.lookup name with
  | some v => v.settings? keys
  | none => some []

/-- The configuration that a document gives, if it gives nothing else. -/
def Config.ofDocument? (document : Toml.Table) : Option Config := do
  guard (document.all fun (name, _) => name == "bundle" || name == "inputs")
  return {
    bundle := .ofGiven (← section? document "bundle" Identity.keys)
    inputs := .ofGiven (← section? document "inputs" Inputs.keys) }

/-- Reads a configuration and checks it. -/
def Config.read (text : String) : Except BundleError Config := do
  let some document := Toml.read? text
    | throw (.configurationSyntax "the text is no TOML document")
  let some config := Config.ofDocument? document
    | throw (.configurationSyntax "a key is unknown or its value is no string")
  config.check
  return config

end OperatorBundle
