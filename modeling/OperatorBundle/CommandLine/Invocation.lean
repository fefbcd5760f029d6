import OperatorBundle.Build

/-!
# Invocations

What the words behind the name of the program ask for.  Words are read from the left; the first one
that asks for help or for the version, or that makes no sense, settles what is done.
-/

namespace OperatorBundle.CommandLine

/-- What the program is asked to do. -/
inductive Invocation where
  | help
  | version
  /-- The words make no sense. -/
  | misuse
  | build (config : Option Path) (request : Build.Request)
deriving DecidableEq, Repr, Inhabited

/-! ## Words -/

/-- The kinds of words. -/
inductive Word where
  /-- No option, though it may be a single hyphen. -/
  | plain
  | help
  | version
  /-- The option that names a configuration file, with the file if the word itself names it. -/
  | config (file : Option String)
  /-- Two hyphens, behind which no word is an option. -/
  | endOfOptions
  | unknown
deriving DecidableEq, Repr

/-- The option with a long name.  What stands behind an equals sign is its value. -/
def longOption (body : List Char) : Word :=
  let name := String.ofList (body.takeWhile (· != '='))
  let value := match body.dropWhile (· != '=') with
    | [] => none
    | _ :: value => some (String.ofList value)
  match value with
  | none =>
      if name == "help" then .help
      else if name == "version" then .version
      else if name == "config" then .config none
      else .unknown
  | some value => if name == "config" then .config (some value) else .unknown

/-- The option with a short name.  What stands behind the name is its value, with or without an
equals sign. -/
def shortOption (name : Char) (behind : List Char) : Word :=
  if name == 'h' then .help
  else if name == 'V' then .version
  else if name == 'c' then
    match behind with
    | [] => .config none
    | c :: r => .config (some (String.ofList (if c == '=' then r else c :: r)))
  else .unknown

/-- The kind of a word. -/
def Word.ofChars : List Char → Word
  | [] => .plain
  | [_] => .plain
  | c :: d :: r =>
      if c != '-' then .plain
      else if d != '-' then shortOption d r
      else if r.isEmpty then .endOfOptions
      else longOption r

/-- The kind of a word. -/
def Word.of (word : String) : Word := .ofChars word.toList

/-! ## Reading -/

/-- The words that were read. -/
structure Given where
  config : Option String := none
  /-- The words that are no options. -/
  positionals : List String := []
deriving DecidableEq, Repr, Inhabited

namespace Given

/-- Takes the configuration file.  It is given once at most, and not by an empty word. -/
def withConfig (given : Given) (file : String) : Option Given :=
  if file.isEmpty || given.config.isSome then none
  else some { given with config := some file }

/-- Takes a word that is no option.  There are five at most, and the first is not empty. -/
def withPositional (given : Given) (word : String) : Option Given :=
  if given.positionals.length < 5 && !(given.positionals.isEmpty && word.isEmpty) then
    some { given with positionals := given.positionals ++ [word] }
  else none

/-- The build that all words together ask for. -/
def invocation (given : Given) : Invocation :=
  match given.positionals with
  | [outputDir, previousVersion, commitCount, commitHash, image] =>
      .build (given.config.map Path.mk)
        { outputDir := ⟨outputDir⟩, previousVersion, commitCount, commitHash, image }
  | _ => .misuse

end Given

/-- Reads words of which none is an option. -/
def readPositionals (given : Given) : List String → Invocation
  | [] => given.invocation
  | word :: words =>
      match given.withPositional word with
      | some given => readPositionals given words
      | none => .misuse

/-- Reads words.  `awaiting` says that the word before was the option that names a configuration
file, and the name is still to come. -/
def readWords (awaiting : Bool) (given : Given) : List String → Invocation
  | [] => if awaiting then .misuse else given.invocation
  | word :: words =>
      match Word.of word, awaiting with
      | .plain, true =>
          match given.withConfig word with
          | some given => readWords false given words
          | none => .misuse
      | _, true => .misuse
      | .plain, false =>
          match given.withPositional word with
          | some given => readWords false given words
          | none => .misuse
      | .help, false => .help
      | .version, false => .version
      | .config none, false => readWords true given words
      | .config (some file), false =>
          match given.withConfig file with
          | some given => readWords false given words
          | none => .misuse
      | .endOfOptions, false => readPositionals given words
      | .unknown, false => .misuse

/-- What the words ask for. -/
def Invocation.ofWords (words : List String) : Invocation := readWords false {} words

/-! ## Examples -/

example : Invocation.ofWords ["out", "-cci.toml", "p", "1", "--", "h", "-i"] =
    .build (some ⟨"ci.toml"⟩) ⟨⟨"out"⟩, "p", "1", "h", "-i"⟩ := by decide
example : Invocation.ofWords ["out", "p", "1", "h", "-h"] = .help := by decide
example : Invocation.ofWords ["-c", "--help"] = .misuse := by decide
example : Invocation.ofWords ["--config=a", "-c", "b", "-V"] = .misuse := by decide

end OperatorBundle.CommandLine
