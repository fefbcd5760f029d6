import OperatorBundle.Decimal.Binary64

/-!
# Shortest decimals

The decimal with the fewest digits that lies among the reals which round to a given binary fraction,
and of those with equally few digits the nearest.
-/

namespace OperatorBundle.Decimal

/-- `digits * 10 ^ exponent`. -/
structure Scaled where
  digits : Nat
  exponent : Int
deriving DecidableEq, Repr, Inhabited

/-- Compares `a * 10 ^ i` with `b * 2 ^ j`. -/
def compareScaled (a : Nat) (i : Int) (b : Nat) (j : Int) : Ordering :=
  compare (a * 10 ^ i.toNat * 2 ^ (-j).toNat) (b * 2 ^ j.toNat * 10 ^ (-i).toNat)

/-- Does the decimal round to `m * 2 ^ q`?  The reals that do reach half way to the neighbours, and
include these ends exactly if `m` is even.  Below a power of two the neighbour is nearer. -/
def readsBack (m : Nat) (q : Int) (d : Scaled) : Bool :=
  let narrow := m == 2 ^ (52 : Nat) && q != Binary64.leastExponent
  let lower := compareScaled d.digits d.exponent (4 * m - if narrow then 1 else 2) (q - 2)
  let upper := compareScaled d.digits d.exponent (4 * m + 2) (q - 2)
  if m % 2 == 0 then lower != .lt && upper != .gt else lower == .gt && upper == .lt

/-- The number of decimal digits of the integer part of `a / b`, or, below one, minus the number of
zeros behind the point. -/
def magnitude (a b : Nat) : Int :=
  if b ≤ a then (Nat.toDigits 10 (a / b)).length
  else 1 - (Nat.toDigits 10 (b / a)).length

/-- Of the two decimals with exponent `e` on either side of `m * 2 ^ q`, the one that reads back and
is nearer; of two equally near ones that with even digits. -/
def nearest? (m : Nat) (q e : Int) : Option Scaled :=
  let a := m * 2 ^ q.toNat * 10 ^ (-e).toNat
  let b := 2 ^ (-q).toNat * 10 ^ e.toNat
  let below : Scaled := ⟨a / b, e⟩
  let above : Scaled := ⟨a / b + 1, e⟩
  match readsBack m q below, readsBack m q above with
  | false, false => none
  | true, false => some below
  | false, true => some above
  | true, true =>
      match compare (2 * (a % b)) b with
      | .lt => some below
      | .gt => some above
      | .eq => some (if (a / b) % 2 == 0 then below else above)

/-- The decimal without its trailing zeros. -/
def Scaled.stripZeros : Nat → Scaled → Scaled
  | 0, d => d
  | n + 1, d =>
      if d.digits != 0 && d.digits % 10 == 0 then stripZeros n ⟨d.digits / 10, d.exponent + 1⟩
      else d

/-- Tries one exponent after the other, from the greatest down. -/
def searchFrom (m : Nat) (q : Int) : Nat → Int → Scaled
  | 0, _ => ⟨m * 2 ^ q.toNat * 5 ^ (-q).toNat, min q 0⟩
  | n + 1, e => (nearest? m q e).getD (searchFrom m q n (e - 1))

/-- The shortest decimal that reads back as `m * 2 ^ q`.  Seventeen digits always suffice; were they
not to, the exact value is returned. -/
def shortest (m : Nat) (q : Int) : Scaled :=
  if m == 0 then ⟨0, 0⟩
  else
    let top := magnitude (m * 2 ^ q.toNat) (2 ^ (-q).toNat)
    (searchFrom m q 18 (top - 1)).stripZeros 400

example : shortest 1 (-1074) = ⟨5, -324⟩ := by decide +kernel
example : shortest (2 ^ 52) (-52) = ⟨1, 0⟩ := by decide +kernel
example : shortest 7205759403792794 (-56) = ⟨1, -1⟩ := by decide +kernel
example : shortest (2 ^ 53 - 1) 971 = ⟨17976931348623157, 292⟩ := by decide +kernel

end OperatorBundle.Decimal
