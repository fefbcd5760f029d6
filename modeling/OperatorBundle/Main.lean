import OperatorBundle.CommandLine.Run
import OperatorBundle.Store.Disk
import Std.Time.DateTime.Timestamp

/-!
# The program

The store is the disk of the machine, seen from the working directory, and the clock is the
machine's.
-/

namespace OperatorBundle.Machine

/-- Computations on the disk of the machine. -/
abbrev MachineM := ExceptT BundleError IO

/-- The words of the system for a failure, with the number it has for it. -/
def cause : IO.Error → String
  | .alreadyExists _ n text | .otherError n text | .resourceBusy n text | .resourceVanished n text
  | .unsupportedOperation n text | .hardwareFault n text | .unsatisfiedConstraints n text
  | .illegalOperation n text | .protocolError n text | .timeExpired n text
  | .interrupted _ n text | .noFileOrDirectory _ n text | .invalidArgument _ n text
  | .permissionDenied _ n text | .resourceExhausted _ n text | .inappropriateType _ n text
  | .noSuchThing _ n text => text ++ " (os error " ++ toString n.toNat ++ ")"
  | .unexpectedEof => "failed to fill whole buffer"
  | .userError text => text

/-- The failure of an operation whose own words are all that is known. -/
def plain (e : IO.Error) : BundleError := .io (cause e)

/-- The failure of an operation that needs an input at a path. -/
def blaming (p : Path) : IO.Error → BundleError
  | .noFileOrDirectory .. => .notFound p.text
  | e => plain e

/-- Does something on the machine and reports a failure. -/
def reporting {α : Type} (report : IO.Error → BundleError) (act : IO α) : MachineM α :=
  ExceptT.mk do
    match ← act.toBaseIO with
    | .ok a => return .ok a
    | .error e => return .error (report e)

/-- The path from the root of the disk. -/
def resolved (p : Path) : IO String := do
  let base ← IO.currentDir
  return ((Path.mk base.toString).join p).text

/-- Is there a directory at a path? -/
def isDirectory (p : String) : IO Bool :=
  (IO.FS.DirEntry.mk p ".").path.isDir

/-- The entries of a directory that are files. -/
def filesIn (directory : String) : IO (List String) := do
  let entries ← (IO.FS.DirEntry.mk directory ".").path.readDir
  let files ← entries.toList.filterM fun entry => return !(← entry.path.isDir)
  return files.map (·.fileName)

/-- Puts the bytes of a file into another, which is emptied before they are read. -/
def copyBytes (source target : String) : IO Unit := do
  if ← isDirectory source then throw (.userError Store.Disk.Cause.notAFile.text)
  let _ ← IO.FS.readBinFile source
  IO.FS.writeBinFile target .empty
  IO.FS.writeBinFile target (← IO.FS.readBinFile source)

/-- Makes the first of some directories, and before it those it misses. -/
def ensureAll : List String → IO Unit
  | [] => return
  | p :: above => do
      let present (e : IO.Error) : IO Unit := do
        unless ← isDirectory p do throw e
      try IO.FS.createDir p
      catch
        | .noFileOrDirectory .. =>
            ensureAll above
            try IO.FS.createDir p catch e => present e
        | e => present e

instance : FileStore MachineM where
  read p := do
    let bytes ← reporting (blaming p) do IO.FS.readBinFile (← resolved p)
    match String.fromUTF8? bytes with
    | some text => return text
    | none => throw Store.Disk.Cause.notText.plain
  write p text := reporting plain do IO.FS.writeFile (← resolved p) text
  copy source target := reporting (blaming source) do
    copyBytes (← resolved source) (← resolved target)
  list p := do
    let names ← reporting (blaming p) do filesIn (← resolved p)
    return names.map fun name => p.join ⟨name⟩
  hasFile p := reporting plain do
    let place := (IO.FS.DirEntry.mk (← resolved p) "").root
    return (← place.pathExists) && !(← place.isDir)
  makeDirectories p := reporting plain do
    let full := Path.mk (← resolved p)
    ensureAll (full.ancestors.map (·.text))

/-- The instant that the clock of the machine shows. -/
def now : IO Calendar.Instant := do
  let stamp ← Std.Time.Timestamp.now
  return ⟨stamp.toSecondsSinceUnixEpoch.val, 0⟩

end OperatorBundle.Machine

open OperatorBundle in
/-- Runs the program on the words of its command line. -/
def main (words : List String) : IO UInt32 := do
  let run : Machine.MachineM CommandLine.Ending := CommandLine.run words (← Machine.now)
  let ending := match ← run.run with
    | .ok ending => ending
    | .error e => .failed none e
  IO.print ending.output
  IO.eprint ending.complaint
  return UInt32.ofNat ending.exitCode
