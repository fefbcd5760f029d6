/-!
# Bundle versions and the names made from them

A version is written `<base>.<commit count>-<commit hash>`.  Its parts are taken as they come:
nothing about them is checked here.
-/

namespace OperatorBundle

/-- The version of one bundle. -/
structure Version where
  /-- The written form. -/
  text : String
deriving DecidableEq, Repr, Inhabited

namespace Version

/-- The base of a version whose configuration names none. -/
def defaultBase : String := "0.1"

/-- The version of the commit `hash`, the `count`-th since the base version. -/
def derive (base count hash : String) : Version :=
  ⟨base ++ "." ++ count ++ "-" ++ hash⟩

/-- The name of the directory that holds the bundle. -/
def directoryName (version : Version) : String := version.text

instance : ToString Version := ⟨text⟩

end Version

/-- The name under which an operator is published at a version. -/
def publishedName (operator version : String) : String :=
  operator ++ ".v" ++ version

/-- The name of the file that describes an operator at a version. -/
def descriptorFileName (operator : String) (version : Version) : String :=
  publishedName operator version.text ++ ".clusterserviceversion.yaml"

end OperatorBundle
