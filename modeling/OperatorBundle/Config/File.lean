import OperatorBundle.Config
import OperatorBundle.Store.Basic

/-!
# The configuration file

Where a build takes its configuration from.
-/

namespace OperatorBundle

/-- The configuration file that is read where no other is asked for. -/
def configFile : Path := ⟨"bundle.toml"⟩

/-- The file from which the configuration is read.  One that was asked for is read whether it is
there or not; the usual one only if it is there. -/
def configSource? {m : Type → Type} [Monad m] [FileStore m] (asked : Option Path) :
    m (Option Path) := do
  match asked with
  | some p => return some p
  | none => return if ← FileStore.hasFile configFile then some configFile else none

/-- The configuration in a store.  Without a file all settings have their defaults. -/
def Config.load {m : Type → Type} [Monad m] [MonadExcept BundleError m] [FileStore m]
    (asked : Option Path) : m Config := do
  match ← configSource? asked with
  | some p => MonadExcept.ofExcept (Config.read (← FileStore.read p))
  | none => return {}

end OperatorBundle
