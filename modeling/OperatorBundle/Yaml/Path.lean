import OperatorBundle.Text.Split

/-!
# Paths into documents

A path such as `spec.install.spec.deployments[0].spec` leads from a document to a part of it: by
keys, which periods separate, and by positions in brackets behind a key.
-/

namespace OperatorBundle.Yaml

/-- One step on the way into a document. -/
inductive Step where
  /-- To the value under a key of a mapping. -/
  | key (name : String)
  /-- To an item of a sequence, counted from zero. -/
  | index (position : Nat)
deriving DecidableEq, Repr, Inhabited

namespace Path

/-- The greatest position that can be written, and one more. -/
def positionLimit : Nat := UInt64.size

/-- The position written between brackets: decimal digits, and a plus sign at most in front. -/
def position? (text : List Char) : Option Nat :=
  let digits := match text with | '+' :: r => r | _ => text
  if digits.isEmpty || !digits.all Char.isDigit then none
  else
    let n := digits.foldl (fun n c => 10 * n + (c.toNat - '0'.toNat)) 0
    if n < positionLimit then some n else none

/-- The positions in brackets behind a key; nothing else may stand there.  The first argument is
what has been read of an open bracket. -/
def positions? : Option (List Char) → List Char → Option (List Nat)
  | none, [] => some []
  | some _, [] => none
  | none, c :: r => if c == '[' then positions? (some []) r else none
  | some inside, c :: r =>
      if c == ']' then do
        let n ← position? inside
        return n :: (← positions? none r)
      else positions? (some (inside ++ [c])) r

/-- The steps of a text without periods: a key, unless it is empty, and positions. -/
def segmentSteps? (segment : List Char) : Option (List Step) := do
  let key := segment.takeWhile (· != '[')
  let positions ← positions? none (segment.dropWhile (· != '['))
  let steps := positions.map Step.index
  return if key.isEmpty then steps else .key (String.ofList key) :: steps

/-- The steps of a path written as characters. -/
def stepsOfChars? (path : List Char) : Option (List Step) :=
  ((Text.split '.' path).mapM segmentSteps?).map List.flatten

/-- The steps of a path; `none` if it is not written as paths are. -/
def steps? (path : String) : Option (List Step) :=
  stepsOfChars? path.toList

end Path

end OperatorBundle.Yaml
