import OperatorBundle.Decimal.Shortest
import OperatorBundle.Yaml.Character

/-!
# Numbers

What numbers a document can hold, which texts are read as numbers, and how numbers are written.
An integer can be written in decimal, or behind `0x`, `0o` or `0b` in base sixteen, eight or two; it
lies between `-2 ^ 63` and `2 ^ 64`.
-/

namespace OperatorBundle.Yaml

open Decimal (Binary64)

/-- A number.  An integer is never equal to a fraction. -/
inductive Number where
  | integer (value : Int)
  | fraction (value : Binary64)
deriving DecidableEq, Repr, Inhabited

namespace Number

/-- Do two numbers count as one key? -/
def same : Number → Number → Bool
  | integer a, integer b => a == b
  | fraction a, fraction b => a.same b
  | _, _ => false

/-! ## Reading integers -/

/-- The number written by digits of a base up to sixteen; there must be a digit. -/
def digits? (base : Nat) (text : List Char) : Option Nat :=
  if text.isEmpty then none
  else text.foldlM (fun n c => do
    let d ← hexDigit? c
    if d < base then some (base * n + d) else none) 0

/-- The bases other than ten, and what announces them. -/
def bases : List (List Char × Nat) :=
  [(['0', 'x'], 16), (['0', 'o'], 8), (['0', 'b'], 2)]

/-- What is left of a text behind `lead`. -/
def behind? (lead text : List Char) : Option (List Char) :=
  if lead.isPrefixOf text then some (text.drop lead.length) else none

/-- The text without a sign. -/
def unsigned : List Char → List Char
  | '+' :: r | '-' :: r => r
  | text => text

/-- Does this text write a number with a zero in front that does not belong there?  Such digits are
a text. -/
def hasLeadingZero (text : List Char) : Bool :=
  match unsigned text with
  | '0' :: d :: r => isDigit d && r.all isDigit
  | _ => false

/-- The magnitude that a text without sign writes in base ten or behind the mark of another base. -/
def magnitude? (text : List Char) : Option Nat :=
  let marked := bases.findSome? fun (mark, base) => behind? mark text >>= digits? base
  marked <|> digits? 10 text

/-- The integer that a text writes, of whatever size. -/
def anyInteger? (text : List Char) : Option Int :=
  if hasLeadingZero text then none
  else
    match text with
    | '+' :: r => (magnitude? r).map Int.ofNat
    | '-' :: r => (magnitude? r).map (-Int.ofNat ·)
    | _ => (magnitude? text).map Int.ofNat

/-- How an integer is taken by its size. -/
inductive Fit where
  /-- It is a number of a document. -/
  | fits
  /-- It is recognised as an integer, but there is no such number. -/
  | tooGreat
  /-- It is not recognised as an integer. -/
  | unknown
deriving DecidableEq, Repr

/-- Integers of up to 64 bits fit, and those of up to 128 bits are recognised. -/
def fit (n : Int) : Fit :=
  if -2 ^ (63 : Nat) ≤ n && n < 2 ^ (64 : Nat) then .fits
  else if -2 ^ (127 : Nat) ≤ n && n < 2 ^ (128 : Nat) then .tooGreat
  else .unknown

/-! ## Reading fractions -/

/-- The exponent behind the digits of a fraction: nothing, or `e` and an integer with optional
sign. -/
def exponent? : List Char → Option Int
  | [] => some 0
  | c :: r =>
      if c != 'e' && c != 'E' then none
      else
        match r with
        | '-' :: s => (digits? 10 s).map (-Int.ofNat ·)
        | '+' :: s => (digits? 10 s).map Int.ofNat
        | _ => (digits? 10 r).map Int.ofNat

/-- The fraction that a text without sign writes in decimal: digits, of which a point may stand in
front, between or behind, and an exponent. -/
def decimal? (negative : Bool) (text : List Char) : Option Binary64 := do
  let whole := text.takeWhile isDigit
  let rest := text.dropWhile isDigit
  let (places, rest) :=
    match rest with
    | '.' :: r => (r.takeWhile isDigit, r.dropWhile isDigit)
    | _ => ([], rest)
  let digits ← digits? 10 (whole ++ places)
  let exponent ← exponent? rest
  return .ofDecimal negative digits (exponent - places.length)

/-- The spellings of infinity. -/
def infinities : List String := [".inf", ".Inf", ".INF"]

/-- The spellings of not-a-number. -/
def nans : List String := [".nan", ".NaN", ".NAN"]

/-- The fraction that a text writes.  What is too great for a number is none. -/
def fraction? (text : List Char) : Option Binary64 :=
  let written := String.ofList text
  if nans.contains written then some .nan
  else
    match text with
    | '+' :: '+' :: _ | '+' :: '-' :: _ => none
    | '-' :: r =>
        if infinities.contains (String.ofList r) then some (.infinity true)
        else (decimal? true r).filter (·.isFinite)
    | _ =>
        let r := (behind? ['+'] text).getD text
        if infinities.contains (String.ofList r) then some (.infinity false)
        else (decimal? false r).filter (·.isFinite)

/-! ## Writing -/

/-- The decimal digits of a number. -/
def digitsText (n : Nat) : String := String.ofList (Nat.toDigits 10 n)

/-- The text of an integer. -/
def integerText (n : Int) : String :=
  if n < 0 then "-" ++ digitsText n.natAbs else digitsText n.natAbs

/-- `n` zeros. -/
def zeros (n : Nat) : String := String.ofList (List.replicate n '0')

/-- The text of a decimal without sign.  Values from `10 ^ -5` to below `10 ^ 16` are written with a
point that has a digit on either side, others with an exponent. -/
def decimalText (d : Decimal.Scaled) : String :=
  let digits := Nat.toDigits 10 d.digits
  let point := digits.length + d.exponent
  if 0 ≤ d.exponent && point ≤ 16 then
    String.ofList digits ++ zeros d.exponent.toNat ++ ".0"
  else if 0 < point && point ≤ 16 then
    String.ofList (digits.take point.toNat) ++ "." ++ String.ofList (digits.drop point.toNat)
  else if -5 < point && point ≤ 0 then
    "0." ++ zeros (-point).toNat ++ String.ofList digits
  else
    let tail := if digits.length == 1 then "" else "." ++ String.ofList (digits.drop 1)
    String.ofList (digits.take 1) ++ tail ++ "e" ++ integerText (point - 1)

/-- The text of a fraction: the fewest digits that read back as the same number. -/
def fractionText : Binary64 → String
  | .finite negative m q => (if negative then "-" else "") ++ decimalText (Decimal.shortest m q)
  | .infinity negative => if negative then "-.inf" else ".inf"
  | .nan => ".nan"

/-- The text of a number. -/
def text : Number → String
  | integer n => integerText n
  | fraction x => fractionText x

example : decimalText ⟨1, 3⟩ = "1000.0" := by decide +kernel
example : decimalText ⟨15, -1⟩ = "1.5" := by decide +kernel
example : decimalText ⟨1, -5⟩ = "0.00001" := by decide +kernel
example : decimalText ⟨1, 21⟩ = "1e21" := by decide +kernel
example : decimalText ⟨1234, -11⟩ = "1.234e-8" := by decide +kernel

end Number

end OperatorBundle.Yaml
