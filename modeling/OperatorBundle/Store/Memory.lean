import OperatorBundle.Store.Basic

/-!
# A store in memory

Files and directories side by side: a file needs no directory around it, and writing never fails.
Paths are told apart by their components; of two spellings of a path the first is kept.
-/

namespace OperatorBundle.Store

/-- Files with their texts, and directories. -/
structure Memory where
  files : List (Path × String) := []
  directories : List Path := []
deriving DecidableEq, Repr, Inhabited

namespace Memory

/-- Do two paths have the same components? -/
def leadToSame (p q : Path) : Bool := p.components == q.components

/-- The text of the file at a path. -/
def contents? (p : Path) : List (Path × String) → Option String
  | [] => none
  | (q, text) :: files => if leadToSame q p then some text else contents? p files

/-- The files with another text at a path. -/
def put (p : Path) (text : String) : List (Path × String) → List (Path × String)
  | [] => [(p, text)]
  | (q, old) :: files =>
      if leadToSame q p then (q, text) :: files else (q, old) :: put p text files

/-- What was put at a path is found there, and all else as before. -/
theorem contents?_put (p q : Path) (text : String) (files : List (Path × String)) :
    contents? q (put p text files) = if leadToSame p q then some text else contents? q files := by
  induction files with
  | nil => rfl
  | cons file files ih =>
      obtain ⟨r, old⟩ := file
      by_cases h : r.components = p.components
      · simp [put, contents?, leadToSame, h]
        split <;> rfl
      · simp only [leadToSame, beq_iff_eq] at ih
        by_cases hq : r.components = q.components
        · have apart : p.components ≠ q.components := fun e => h (hq.trans e.symm)
          have apart' : q.components ≠ p.components := fun e => apart e.symm
          simp [put, contents?, leadToSame, hq, apart, apart']
        · simp [put, contents?, leadToSame, h, hq, ih]

/-- The directories and one more. -/
def addDirectory (directories : List Path) (p : Path) : List Path :=
  if directories.any (leadToSame p) then directories else directories ++ [p]

/-! ## Operations -/

/-- The text of a file. -/
def read (store : Memory) (p : Path) : Except BundleError String :=
  match contents? p store.files with
  | some text => .ok text
  | none => .error (.notFound p.text)

/-- Puts a text into a file. -/
def write (store : Memory) (p : Path) (text : String) : Memory :=
  { store with files := put p text store.files }

/-- Puts the text of a file into another. -/
def copy (store : Memory) (source target : Path) : Except BundleError Unit × Memory :=
  match store.read source with
  | .ok text => (.ok (), store.write target text)
  | .error e => (.error e, store)

/-- Does the path stand in the directory itself? -/
def standsIn (directory p : Path) : Bool :=
  match p.parent? with
  | some q => leadToSame q directory
  | none => false

/-- The files in a directory.  Only a directory that was made may be without files. -/
def list (store : Memory) (directory : Path) : Except BundleError (List Path) :=
  let found := (store.files.map (·.1)).filter (standsIn directory)
  if found.isEmpty && !store.directories.any (leadToSame directory) then
    .error (.notFound directory.text)
  else .ok found

/-- Makes a directory and those above it. -/
def makeDirectories (store : Memory) (p : Path) : Memory :=
  let made := p.ancestors.filter fun q => !q.text.isEmpty
  { store with directories := made.foldl addDirectory store.directories }

end Memory

instance : FileStore (StoreM Memory) where
  read p := .observe fun store => store.read p
  write p text := .change fun store => (.ok (), store.write p text)
  copy source target := .change fun store => store.copy source target
  list p := .observe fun store => store.list p
  hasFile p := .observe fun store => .ok (Memory.contents? p store.files).isSome
  makeDirectories p := .change fun store => (.ok (), store.makeDirectories p)

end OperatorBundle.Store
