/-!
# Why a build stops

Every operation of the library that can fail does so with a `BundleError`.  The constructors are
causes; `BundleError.message` is the one place that words them, and `BundleError.exitCode` sorts
them into the classes that a caller of the program sees.
-/

namespace OperatorBundle

/-- The cause of a failure. -/
inductive BundleError where
  /-- The store could not do what was asked; `cause` is its own account. -/
  | io (cause : String)
  /-- A required input file or directory is not there. -/
  | notFound (path : String)
  /-- A document is no YAML document. -/
  | malformed (path : String) (details : String)
  /-- A document was read, but a field that is needed is absent or of the wrong kind. -/
  | missingField (path : String) (field : String)
  /-- A setting has a value that cannot be used. -/
  | configuration (reason : String)
  /-- The configuration file is no TOML document, or not one of the expected shape. -/
  | configurationSyntax (details : String)
  /-- The assembled descriptor has no written form. -/
  | unrenderable (details : String)
deriving DecidableEq, Repr, Inhabited

namespace BundleError

/-- What the user reads. -/
def message : BundleError → String
  | io cause => cause
  | notFound path => "Required input not found: " ++ path
  | malformed path details => "Failed to parse " ++ path ++ ": " ++ details
  | missingField path field =>
      path ++ ": expected field '" ++ field ++ "' is missing or malformed"
  | configuration reason => "Invalid configuration: " ++ reason
  | configurationSyntax details => "TOML parse error: " ++ details
  | unrenderable details => "Failed to render ClusterServiceVersion: " ++ details

/-- The exit status of each class of failure.  Status 1 is kept for misuse of the command line. -/
def exitCode : BundleError → Nat
  | io _ | unrenderable _ => 2
  | notFound _ => 3
  | malformed .. => 4
  | missingField .. => 5
  | configuration _ | configurationSyntax _ => 6

/-- No failure of the library looks like success or like misuse of the command line. -/
theorem two_le_exitCode (e : BundleError) : 2 ≤ e.exitCode := by
  cases e <;> simp [exitCode]

end BundleError

end OperatorBundle
