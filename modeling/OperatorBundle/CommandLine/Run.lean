import OperatorBundle.CommandLine.Invocation
import OperatorBundle.Config.File

/-!
# One run of the program

How a run ends, and what it prints on the way.  The version is announced when the configuration is
known, and the descriptor when it is written, so what was printed tells how far a run came.
-/

namespace OperatorBundle.CommandLine

open Calendar (Instant)

/-- The version of the program. -/
def programVersion : String := "olm-bundle 0.2.0\n"

/-- How the program is used. -/
def helpText : String := String.join <| [
  "Compose a versioned OLM operator bundle from deploy manifests",
  "",
  "Usage: olm-bundle [OPTIONS] <OUTPUT_DIR> <PREVIOUS_VERSION> <GIT_NUM_COMMITS> <GIT_HASH> " ++
    "<OPERATOR_IMAGE>",
  "",
  "Arguments:",
  "  <OUTPUT_DIR>        Directory receiving the <version>/ bundle directory",
  "  <PREVIOUS_VERSION>  Version of the bundle being replaced (e.g. 0.1.40-abc123)",
  "  <GIT_NUM_COMMITS>   Commit count since the base version",
  "  <GIT_HASH>          Commit hash appended to the version",
  "  <OPERATOR_IMAGE>    Operator image reference for the deployment",
  "",
  "Options:",
  "  -c, --config <CONFIG>  Bundle configuration file (defaults to ./bundle.toml when present)",
  "  -h, --help             Print help",
  "  -V, --version          Print version"].map (· ++ "\n")

/-- How a run ends. -/
inductive Ending where
  /-- The program told about itself. -/
  | told (text : String)
  /-- The words of the command line made no sense. -/
  | misused
  /-- Something failed: the build of a version, or before that the configuration. -/
  | failed (version : Option Version) (error : BundleError)
  /-- The bundle was built. -/
  | built (version : Version) (descriptorPath : Path)
deriving DecidableEq, Repr, Inhabited

namespace Ending

/-- The line that tells which version is built. -/
def announcement (version : Version) : String :=
  "Generating CSV for version: " ++ version.text ++ "\n"

/-- What is printed for the user. -/
def output : Ending → String
  | told text => text
  | misused => ""
  | failed version _ => (version.map announcement).getD ""
  | built version descriptorPath =>
      announcement version ++ "✅ Wrote ClusterServiceVersion: " ++ descriptorPath.text ++ "\n"

/-- What is printed where failures are told. -/
def complaint : Ending → String
  | told _ | built .. => ""
  | misused => helpText
  | failed _ error => "Error: " ++ error.message ++ "\n"

/-- The exit status. -/
def exitCode : Ending → Nat
  | told _ | built .. => 0
  | misused => 1
  | failed _ error => error.exitCode

end Ending

section

variable {m : Type → Type} [Monad m] [MonadExcept BundleError m] [FileStore m]

/-- The result of a computation, also where it fails. -/
def attempt {α : Type} (x : m α) : m (Except BundleError α) :=
  tryCatch (Except.ok <$> x) fun e => pure (.error e)

/-- Does what the program is asked to do. -/
def Invocation.serve (invocation : Invocation) (now : Instant) : m Ending := do
  match invocation with
  | .help => return .told helpText
  | .version => return .told programVersion
  | .misuse => return .misused
  | .build asked request =>
      match ← attempt (Config.load asked) with
      | .error e => return .failed none e
      | .ok config =>
          let version := request.version config
          match ← attempt (Build.run config request now) with
          | .error e => return .failed (some version) e
          | .ok outcome => return .built version outcome.descriptorPath

/-- One run of the program. -/
def run (words : List String) (now : Instant) : m Ending :=
  (Invocation.ofWords words).serve now

end

end OperatorBundle.CommandLine
