import OperatorBundle.Text.LetterCase
import OperatorBundle.Text.Ranges

/-!
# Small letters

The text in small letters.  Two characters are special: the capital i with a dot becomes two
characters, and the capital sigma has a form of its own at the end of a word.
-/

namespace OperatorBundle.Text

/-- Is the letter with this code point in the run? -/
def CapitalRun.holds (run : CapitalRun) (n : Nat) : Bool :=
  run.first ≤ n && n ≤ run.last && (n - run.first) % run.distance == 0

/-- The small form of a letter, and any other character itself. -/
def smallForm (c : Char) : Char :=
  match capitalRuns.find? (·.holds c.toNat) with
  | some run => Char.ofNat (run.small + (c.toNat - run.first))
  | none => c

/-- Is the first character that counts one with a case? -/
def meetsCased (s : List Char) : Bool :=
  match s.dropWhile fun c => isAmong ignorableRanges c.toNat with
  | c :: _ => isAmong casedRanges c.toNat
  | [] => false

/-- The text in small letters behind what was read already, the last character of that first. -/
def lowercaseFrom (before : List Char) : List Char → List Char
  | [] => []
  | c :: r =>
      let small :=
        if c == 'Σ' then [if meetsCased before && !meetsCased r then 'ς' else 'σ']
        else if c == 'İ' then ['i', '\u0307']
        else [smallForm c]
      small ++ lowercaseFrom (c :: before) r

/-- The text in small letters. -/
def lowercase (s : String) : String := String.ofList (lowercaseFrom [] s.toList)

example : lowercase "ÀB ΣΑΣ, ΑΣ." = "àb σας, ας." := by decide +kernel
example : lowercase "Kẞ" = "kß" := by decide +kernel

end OperatorBundle.Text
