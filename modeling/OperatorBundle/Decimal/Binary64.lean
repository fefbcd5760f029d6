/-!
# Binary fractions of 64 bits

The numbers that a double-precision word can hold, as sign, mantissa and exponent, and the one
nearest to a decimal.  Everything is exact arithmetic on integers.
-/

namespace OperatorBundle.Decimal

/-- Powers are those of the core library, also beside a library that has its own. -/
instance (priority := high) natPow : Pow Nat Nat := instPowNat

/-- Powers are those of the core library, also beside a library that has its own. -/
instance (priority := high) intPow : Pow Int Nat := instPowNat

/-- A double-precision number.  A finite one is `mantissa * 2 ^ exponent`; values made by this
library have `mantissa < 2 ^ 53` and `-1074 ≤ exponent ≤ 971`, and reach `2 ^ 52 ≤ mantissa` unless
the exponent is least. -/
inductive Binary64 where
  | finite (negative : Bool) (mantissa : Nat) (exponent : Int)
  | infinity (negative : Bool)
  | nan
deriving DecidableEq, Repr, Inhabited

namespace Binary64

/-- The least exponent. -/
def leastExponent : Int := -1074

/-- The greatest exponent. -/
def greatestExponent : Int := 971

/-- Zero with a sign. -/
def zero (negative : Bool) : Binary64 := finite negative 0 leastExponent

/-- Do two numbers count as one?  Both zeros do, and so does not-a-number with itself. -/
def same : Binary64 → Binary64 → Bool
  | finite _ 0 _, finite _ 0 _ => true
  | a, b => a == b

/-- Is this a number other than infinity? -/
def isFinite : Binary64 → Bool
  | finite .. => true
  | _ => false

/-- `a / b` rounded to the nearest integer, a half to the even one. -/
def roundDiv (a b : Nat) : Nat :=
  let q := a / b
  match compare (2 * (a % b)) b with
  | .lt => q
  | .gt => q + 1
  | .eq => q + q % 2

/-- The number nearest to `a / b`, of two equally near ones that with even mantissa.  `a` and `b`
are positive. -/
def ofRatio (negative : Bool) (a b : Nat) : Binary64 :=
  let up (q : Int) := b * 2 ^ q.toNat
  let down (q : Int) := a * 2 ^ (-q).toNat
  let guess := max ((a.log2 : Int) - b.log2 - 53) leastExponent
  let q := if 2 ^ (53 : Nat) ≤ down guess / up guess then guess + 1 else guess
  let m := roundDiv (down q) (up q)
  let (m, q) := if m == 2 ^ (53 : Nat) then (2 ^ (52 : Nat), q + 1) else (m, q)
  if greatestExponent < q then infinity negative else finite negative m q

/-- The number nearest to `digits * 10 ^ exponent`.  Exponents so great or so small that the outcome
is plain are not computed with. -/
def ofDecimal (negative : Bool) (digits : Nat) (exponent : Int) : Binary64 :=
  let size := (Nat.toDigits 10 digits).length + exponent
  if digits == 0 || size < -330 then zero negative
  else if 310 < size then infinity negative
  else ofRatio negative (digits * 10 ^ exponent.toNat) (10 ^ (-exponent).toNat)

example : ofDecimal false 1 0 = finite false (2 ^ 52) (-52) := by decide +kernel
example : ofDecimal false 5 (-324) = finite false 1 (-1074) := by decide +kernel
example : ofDecimal true 2 (-324) = zero true := by decide +kernel
example : ofDecimal false 17976931348623159 292 = infinity false := by decide +kernel

end Binary64

end OperatorBundle.Decimal
