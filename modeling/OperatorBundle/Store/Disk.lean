import OperatorBundle.Store.Basic

/-!
# A store on disk

A tree of directories and files of bytes, and what a system answers that is asked for a path in
it.  A path is followed step by step, and every step but the last must find a directory.
`Disk.Cause` lists what may be in the way, with the words that the system has for it.
-/

namespace OperatorBundle.Store

namespace Disk

/-! ## What may be in the way -/

/-- Why the system refuses a path. -/
inductive Cause where
  | missing
  | alreadyThere
  | notADirectory
  | isADirectory
  | nameTooLong
  /-- A path with the character that ends paths for the system. -/
  | endInside
  /-- Something other than a file is to be copied. -/
  | notAFile
  /-- The bytes of a file are no text. -/
  | notText
deriving DecidableEq, Repr

/-- The words of the system. -/
def Cause.text : Cause → String
  | missing => "No such file or directory (os error 2)"
  | alreadyThere => "File exists (os error 17)"
  | notADirectory => "Not a directory (os error 20)"
  | isADirectory => "Is a directory (os error 21)"
  | nameTooLong => "File name too long (os error 36)"
  | endInside => "file name contained an unexpected NUL byte"
  | notAFile => "the source path is neither a regular file nor a symlink to a regular file"
  | notText => "stream did not contain valid UTF-8"

/-- The failure of an operation whose own words are all that is known. -/
def Cause.plain (cause : Cause) : BundleError := .io cause.text

/-- The failure of an operation that needs an input at a path. -/
def Cause.blaming (p : Path) : Cause → BundleError
  | .missing => .notFound p.text
  | cause => cause.plain

/-- The bytes that a name may have. -/
def nameLimit : Nat := 255

/-- The bytes that a path may have. -/
def pathLimit : Nat := 4095

/-! ## The tree -/

/-- Where something stands: the names on the way up, the innermost first. -/
abbrev Place := List String

/-- Bytes are compared as in the core library, also beside a library with a comparison of its own. -/
instance (priority := high) decidableEqBytes : DecidableEq ByteArray := ByteArray.instDecidableEq

/-- What stands at a place. -/
inductive Entry where
  | file (bytes : ByteArray)
  | directory
deriving DecidableEq, Inhabited

end Disk

open Disk (Place Entry Cause nameLimit pathLimit)

/-- A tree of files and directories.  The place without names is its root and always a directory. -/
structure Disk where
  entries : List (Place × Entry) := []
  /-- The directory from which paths are taken that do not begin at the root. -/
  base : Place := []
deriving DecidableEq, Inhabited

namespace Disk

/-- What stands at a place. -/
def entry? (disk : Disk) (place : Place) : Option Entry :=
  if place.isEmpty then some .directory else disk.entries.lookup place

/-- The entries with another one at a place. -/
def put (place : Place) (entry : Entry) : List (Place × Entry) → List (Place × Entry)
  | [] => [(place, entry)]
  | (other, old) :: entries =>
      if other == place then (place, entry) :: entries
      else (other, old) :: put place entry entries

/-- What was put at a place is found there, and all else as before. -/
theorem lookup_put (place other : Place) (entry : Entry) (entries : List (Place × Entry)) :
    (put place entry entries).lookup other =
      if other = place then some entry else entries.lookup other := by
  have apart {a b : Place} (h : a ≠ b) : (a == b) = false := beq_eq_false_iff_ne.2 h
  induction entries with
  | nil =>
      by_cases ho : other = place
      · subst ho
        simp [put]
      · simp [put, List.lookup_cons, ho, apart ho]
  | cons first entries ih =>
      obtain ⟨there, old⟩ := first
      by_cases h : there = place
      · subst h
        by_cases ho : other = there
        · subst ho
          simp [put]
        · simp [put, List.lookup_cons, ho, apart ho]
      · by_cases ho : other = there
        · subst ho
          simp [put, h]
        · simp [put, List.lookup_cons, h, apart ho, ih]

/-- The tree with another entry at a place. -/
def set (disk : Disk) (place : Place) (entry : Entry) : Disk :=
  { disk with entries := put place entry disk.entries }

/-- The bytes of the file at a place, none if there is no file. -/
def bytes (disk : Disk) (place : Place) : ByteArray :=
  match disk.entry? place with
  | some (.file bytes) => bytes
  | _ => .empty

/-! ## Following paths -/

/-- What a name leads to in a directory. -/
def child (disk : Disk) (directory : Place) (name : String) : Except Cause (Option Entry) :=
  if nameLimit < name.utf8ByteSize then .error .nameTooLong
  else .ok (disk.entry? (name :: directory))

/-- The directory to which one step leads from a directory. -/
def enter (disk : Disk) (directory : Place) (step : String) : Except Cause Place := do
  if step == "." then return directory
  if step == ".." then return directory.tail
  match ← disk.child directory step with
  | none => .error .missing
  | some (.file _) => .error .notADirectory
  | some .directory => return step :: directory

/-- The directory to which several steps lead. -/
def enterAll (disk : Disk) (directory : Place) (steps : List String) : Except Cause Place :=
  steps.foldlM disk.enter directory

/-- The steps of a path. -/
def steps (p : Path) : List String :=
  ((Text.split '/' p.text.toList).filter fun part => !part.isEmpty).map String.ofList

/-- Does a path end with a slash, so that it can only lead to a directory? -/
def asksForDirectory (p : Path) : Bool := p.text.toList.getLast? == some '/'

/-- The last step of a path if it is a name, and the steps before it; otherwise all steps. -/
def lastName (steps : List String) : List String × Option String :=
  match steps.getLast? with
  | some name => if name == "." || name == ".." then (steps, none) else (steps.dropLast, some name)
  | none => (steps, none)

/-- The directory in which the last name of a path stands, with that name, or the directory to which
a path without one leads. -/
def locate (disk : Disk) (p : Path) : Except Cause (Place × Option String) := do
  if p.text.toList.contains '\x00' then .error .endInside
  if pathLimit < p.text.utf8ByteSize then .error .nameTooLong
  let (before, name) := lastName (steps p)
  return (← disk.enterAll (if p.isAbsolute then [] else disk.base) before, name)

/-- What a path leads to, and its place. -/
def find (disk : Disk) (p : Path) : Except Cause (Place × Entry) := do
  match ← disk.locate p with
  | (directory, none) => return (directory, .directory)
  | (directory, some name) =>
      match ← disk.child directory name with
      | none => .error .missing
      | some (.file bytes) =>
          if asksForDirectory p then .error .notADirectory
          else return (name :: directory, .file bytes)
      | some .directory => return (name :: directory, .directory)

/-- The place of the file that is written at a path. -/
def writable (disk : Disk) (p : Path) : Except Cause Place := do
  match ← disk.locate p with
  | (_, none) => .error .isADirectory
  | (directory, some name) =>
      if asksForDirectory p then .error .isADirectory
      else
        match ← disk.child directory name with
        | some .directory => .error .isADirectory
        | _ => return name :: directory

/-! ## Operations -/

/-- The text of a file. -/
def read (disk : Disk) (p : Path) : Except Cause String := do
  match ← disk.find p with
  | (_, .directory) => .error .isADirectory
  | (_, .file bytes) =>
      match String.fromUTF8? bytes with
      | some text => return text
      | none => .error .notText

/-- Puts bytes into a file. -/
def write (disk : Disk) (p : Path) (bytes : ByteArray) : Except Cause Disk := do
  return disk.set (← disk.writable p) (.file bytes)

/-- Puts the bytes of a file into another.  That one is emptied before the bytes are read, so that
a file copied onto itself is empty afterwards. -/
def copy (disk : Disk) (source target : Path) : Except Cause Disk := do
  match ← disk.find source with
  | (_, .directory) => .error .notAFile
  | (place, .file _) =>
      let destination ← disk.writable target
      let emptied := disk.set destination (.file .empty)
      return emptied.set destination (.file (emptied.bytes place))

/-- The name of an entry that is a file in a directory. -/
def fileNameIn (directory : Place) : Place × Entry → Option String
  | (name :: place, .file _) => if place == directory then some name else none
  | _ => none

/-- The files in a directory, taken from the path to it. -/
def list (disk : Disk) (p : Path) : Except Cause (List Path) := do
  match ← disk.find p with
  | (_, .file _) => .error .notADirectory
  | (place, .directory) =>
      return (disk.entries.filterMap (fileNameIn place)).map fun name => p.join ⟨name⟩

/-- Does a path lead to a file? -/
def isFile (disk : Disk) (p : Path) : Bool :=
  match disk.find p with
  | .ok (_, .file _) => true
  | _ => false

/-- Does a path lead to a directory? -/
def isDirectory (disk : Disk) (p : Path) : Bool :=
  match disk.find p with
  | .ok (_, .directory) => true
  | _ => false

/-- Makes one directory. -/
def create (disk : Disk) (p : Path) : Except Cause Disk := do
  match ← disk.locate p with
  | (_, none) => .error .alreadyThere
  | (directory, some name) =>
      match ← disk.child directory name with
      | some _ => .error .alreadyThere
      | none => return disk.set (name :: directory) .directory

/-- Makes one directory, unless it is there. -/
def ensure (disk : Disk) (p : Path) : Except Cause Disk :=
  match disk.create p with
  | .error .alreadyThere => if disk.isDirectory p then .ok disk else .error .alreadyThere
  | result => result

/-- Makes the first of some directories.  Where it misses one above it, the others are made before.
What was made before a failure stays. -/
def ensureAll : List Path → Disk → Except Cause Unit × Disk
  | [], disk => (.ok (), disk)
  | p :: above, disk =>
      match disk.ensure p with
      | .ok disk => (.ok (), disk)
      | .error .missing =>
          match ensureAll above disk with
          | (.ok (), disk) =>
              match disk.ensure p with
              | .ok disk => (.ok (), disk)
              | .error cause => (.error cause, disk)
          | failed => failed
      | .error cause => (.error cause, disk)

/-- Makes a directory and those above it. -/
def makeDirectories (disk : Disk) (p : Path) : Except Cause Unit × Disk :=
  ensureAll p.ancestors disk

/-- What an operation does to the tree, told as the failure `report` makes of its cause. -/
def settle (report : Cause → BundleError) (disk : Disk) (result : Except Cause Disk) :
    Except BundleError Unit × Disk :=
  match result with
  | .ok disk => (.ok (), disk)
  | .error cause => (.error (report cause), disk)

end Disk

instance : FileStore (StoreM Disk) where
  read p := .observe fun disk => (disk.read p).mapError (Cause.blaming p)
  write p text := .change fun disk =>
    disk.settle Cause.plain (disk.write p text.toUTF8)
  copy source target := .change fun disk =>
    disk.settle (Cause.blaming source) (disk.copy source target)
  list p := .observe fun disk => (disk.list p).mapError (Cause.blaming p)
  hasFile p := .observe fun disk => .ok (disk.isFile p)
  makeDirectories p := .change fun disk =>
    let (result, disk) := disk.makeDirectories p
    (result.mapError Cause.plain, disk)

end OperatorBundle.Store
