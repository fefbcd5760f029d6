import OperatorBundle.Error
import OperatorBundle.Path

/-!
# Stores

A store is where the inputs of a build lie and where its bundle is put.  What a build asks of a
store is `FileStore`; the build is written against it alone, so that it runs on a store in memory,
on a tree of directories and on the disk of a machine.
-/

namespace OperatorBundle

/-- Effects among which are those on a store of files. -/
class FileStore (m : Type → Type) where
  /-- The text of a file. -/
  read : Path → m String
  /-- Puts a text into a file, which need not be there before. -/
  write : Path → String → m Unit
  /-- Puts the bytes of a file into another, which need not be there before. -/
  copy : Path → Path → m Unit
  /-- The files that stand in a directory itself, in no particular order. -/
  list : Path → m (List Path)
  /-- Is there a file at this path? -/
  hasFile : Path → m Bool
  /-- Makes a directory and those above it, where they are missing. -/
  makeDirectories : Path → m Unit

/-- Computations on a store of type `σ` that may fail.  What was done to the store before a failure
stays done. -/
abbrev StoreM (σ : Type) := ExceptT BundleError (StateM σ)

namespace StoreM

variable {σ α : Type}

/-- Looks at the store and leaves it alone. -/
def observe (f : σ → Except BundleError α) : StoreM σ α :=
  ExceptT.mk fun s => (f s, s)

/-- Changes the store, also where it fails. -/
def change (f : σ → Except BundleError Unit × σ) : StoreM σ Unit :=
  ExceptT.mk f

/-- The result on a store, and the store behind it. -/
def run (x : StoreM σ α) (s : σ) : Except BundleError α × σ :=
  (ExceptT.run x).run s

@[simp] theorem run_observe (f : σ → Except BundleError α) (s : σ) :
    (observe f).run s = (f s, s) := rfl

@[simp] theorem run_change (f : σ → Except BundleError Unit × σ) (s : σ) :
    (change f).run s = f s := rfl

end StoreM

end OperatorBundle
