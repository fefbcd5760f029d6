import OperatorBundle.Config
import OperatorBundle.Manifest.Descriptor
import OperatorBundle.Store.Basic

/-!
# Building a bundle

A bundle is a directory named for its version.  It holds a copy of every resource definition and a
descriptor, which is put there last: a build that fails leaves copies behind, and no descriptor of
its own.
-/

namespace OperatorBundle.Build

open Calendar (Instant)
open Yaml (Value)

/-- What is asked of one build. -/
structure Request where
  /-- Where the directory of the bundle is made. -/
  outputDir : Path
  /-- The version of the bundle before. -/
  previousVersion : String
  /-- The commits since the base version. -/
  commitCount : String
  commitHash : String
  /-- The image of the operator. -/
  image : String
deriving DecidableEq, Repr, Inhabited

/-- The version that is built. -/
def Request.version (request : Request) (config : Config) : Version :=
  .derive config.bundle.versionBase request.commitCount request.commitHash

/-- What was built. -/
structure Outcome where
  version : Version
  /-- The directory of the bundle. -/
  versionDir : Path
  descriptorPath : Path
  /-- The copies of the resource definitions, ordered by name. -/
  copiedCrds : List Path
deriving DecidableEq, Repr, Inhabited

/-! ## The resource definitions among the files of a directory -/

/-- A file with its name. -/
abbrev NamedFile := String × Path

/-- The file with its name, if the name ends as asked. -/
def named? (suffix : String) (p : Path) : Option NamedFile := do
  let name ← p.fileName?
  guard (suffix.toList.isSuffixOf name.toList)
  return (name, p)

/-- Puts a file in front of the first one whose name is not smaller. -/
def insertByName (file : NamedFile) : List NamedFile → List NamedFile
  | [] => [file]
  | other :: files =>
      if other.1 < file.1 then other :: insertByName file files else file :: other :: files

/-- The files whose names end as asked, ordered by name. -/
def crdFiles (suffix : String) (files : List Path) : List NamedFile :=
  (files.filterMap (named? suffix)).foldr insertByName []

/-! ## The build -/

variable {m : Type → Type} [Monad m] [MonadExcept BundleError m] [FileStore m]

/-- Reads the manifest at a path, which is its source. -/
def readManifest (p : Path) : m Value := do
  MonadExcept.ofExcept (Manifest.read p.text (← FileStore.read p))

/-- Copies a resource definition into the bundle and summarizes it. -/
def collectCrd (versionDir : Path) (file : NamedFile) : m (OwnedCrd × Path) := do
  let copy := versionDir.join ⟨file.1⟩
  FileStore.copy file.2 copy
  let document ← readManifest file.2
  return (← MonadExcept.ofExcept (OwnedCrd.ofDocument file.2.text document), copy)

/-- The permission that the role of the operator gives it. -/
def readPermission (config : Config) : m ClusterPermission := do
  let role ← readManifest ⟨config.inputs.clusterRole⟩
  MonadExcept.ofExcept
    (ClusterPermission.ofRole config.inputs.clusterRole role config.bundle.serviceAccount)

/-- The deployment of the operator with its image. -/
def readDeployment (config : Config) (image : String) : m Deployment := do
  let source := config.inputs.operator
  let text ← FileStore.read ⟨source⟩
  MonadExcept.ofExcept do (← Deployment.ofStream source text).withImage source image

/-- The text of the descriptor. -/
def descriptorText (config : Config) (request : Request) (now : Instant) (template : Value)
    (ownedCrds : List OwnedCrd) (permission : ClusterPermission) (deployment : Deployment) :
    Except BundleError String := do
  let operator := config.bundle.name
  let version := (request.version config).text
  let d : Descriptor :=
    { name := publishedName operator version, version
      replaces := publishedName operator request.previousVersion, createdAt := now, ownedCrds
      clusterPermissions := [permission], deployment }
  Manifest.render (← d.assemble config.inputs.template template)

/-- Builds a bundle.  The first failure ends the build. -/
def run (config : Config) (request : Request) (now : Instant) : m Outcome := do
  let version := request.version config
  let versionDir := request.outputDir.join ⟨version.directoryName⟩
  FileStore.makeDirectories request.outputDir
  FileStore.makeDirectories versionDir
  let template ← readManifest ⟨config.inputs.template⟩
  let files ← FileStore.list ⟨config.inputs.crdDir⟩
  let collected ← (crdFiles config.inputs.crdSuffix files).mapM (collectCrd versionDir)
  let permission ← readPermission config
  let deployment ← readDeployment config request.image
  let text ← MonadExcept.ofExcept
    (descriptorText config request now template (collected.map (·.1)) permission deployment)
  let descriptorPath := versionDir.join ⟨descriptorFileName config.bundle.name version⟩
  FileStore.write descriptorPath text
  return { version, versionDir, descriptorPath, copiedCrds := collected.map (·.2) }

end OperatorBundle.Build
