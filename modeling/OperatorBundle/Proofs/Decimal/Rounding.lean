import OperatorBundle.Decimal.Shortest
import Mathlib.Algebra.Order.Field.Power
import Mathlib.Tactic.FieldSimp
import Mathlib.Tactic.Linarith
import Mathlib.Tactic.NormNum
import Mathlib.Tactic.Positivity
import Mathlib.Tactic.Ring

/-!
# Rounding to binary fractions

Which reals round to which binary fraction, and that `Binary64.ofDecimal` rounds so.  From this
follows that the shortest decimal of a number is read back as that number.
-/

namespace OperatorBundle.Decimal

/-! ## Powers with signed exponents -/

/-- A power as a ratio of two with natural exponents, of which one is zero. -/
theorem zpow_eq_div_toNat (x : ℚ) (q : Int) :
    x ^ q = x ^ q.toNat / x ^ (-q).toNat := by
  rcases Int.le_total 0 q with hq | hq
  · have hneg : (-q).toNat = 0 := by omega
    rw [hneg, pow_zero, div_one, ← zpow_natCast, Int.toNat_of_nonneg hq]
  · have hpos : q.toNat = 0 := by omega
    have hneg : (((-q).toNat : Nat) : Int) = -q := Int.toNat_of_nonneg (by omega)
    rw [hpos, pow_zero, one_div, ← zpow_natCast, hneg, zpow_neg, inv_inv]

theorem zpow_succ (q : Int) : (2 : ℚ) ^ (q + 1) = 2 * 2 ^ q := by
  rw [zpow_add_one₀ (by norm_num), mul_comm]

theorem zpow_sub_two (q : Int) : (2 : ℚ) ^ (q - 2) = 2 ^ q / 4 := by
  rw [zpow_sub₀ (by norm_num)]
  norm_num

/-! ## Numbers in their one form -/

/-- The form in which mantissa and exponent are kept: the mantissa has its full length unless the
exponent is least. -/
structure IsCanonical (m : Nat) (q : Int) : Prop where
  small : m < 2 ^ 53
  least : Binary64.leastExponent ≤ q
  greatest : q ≤ Binary64.greatestExponent
  full : 2 ^ 52 ≤ m ∨ q = Binary64.leastExponent

/-- Is this number kept in that form? -/
def Binary64.IsCanonical : Binary64 → Prop
  | finite _ m q => Decimal.IsCanonical m q
  | infinity _ | nan => True

/-! ## Rounding a ratio to an integer -/

/-- The nearest integer, and of two the even one. -/
theorem roundDiv_eq {a b m : Nat} (hb : 0 < b) (hlow : 2 * (m * b) ≤ 2 * a + b)
    (hhigh : 2 * a ≤ 2 * (m * b) + b)
    (hodd : m % 2 = 1 → 2 * (m * b) < 2 * a + b ∧ 2 * a < 2 * (m * b) + b) :
    Binary64.roundDiv a b = m := by
  have hmod := Nat.mod_lt a hb
  have hsplit := Nat.div_add_mod a b
  rw [Nat.mul_comm] at hsplit
  generalize hk : a / b = k at hsplit
  generalize hr : a % b = r at hsplit hmod
  -- the quotient is the mantissa or one less; the remainder decides which
  have hle : k ≤ m := by
    by_contra hlt
    have hstep : (m + 1) * b ≤ k * b := Nat.mul_le_mul_right b (by omega)
    rw [Nat.add_mul, Nat.one_mul] at hstep
    omega
  have hge : m ≤ k + 1 := by
    by_contra hlt
    have hstep : (k + 2) * b ≤ m * b := Nat.mul_le_mul_right b (by omega)
    rw [Nat.add_mul] at hstep
    omega
  unfold Binary64.roundDiv
  simp only [hk, hr]
  rcases Nat.lt_trichotomy (2 * r) b with hlt | heq | hgt
  · have hm : m ≠ k + 1 := by
      rintro rfl
      rw [Nat.add_mul, Nat.one_mul] at hlow
      omega
    rw [Nat.compare_eq_lt.mpr hlt]
    simp only
    omega
  · rw [Nat.compare_eq_eq.mpr heq]
    simp only
    rcases Nat.lt_or_ge k m with hkm | hkm
    · have hm : m = k + 1 := by omega
      subst hm
      have hb' := fun h => (hodd h).1
      rw [Nat.add_mul, Nat.one_mul] at hb'
      omega
    · have hm : m = k := by omega
      subst hm
      have hb' := fun h => (hodd h).2
      omega
  · have hm : m ≠ k := by
      rintro rfl
      omega
    rw [Nat.compare_eq_gt.mpr hgt]
    simp only
    omega

/-- A rounded quotient is at least the quotient rounded down. -/
theorem div_le_roundDiv (a b : Nat) : a / b ≤ Binary64.roundDiv a b := by
  unfold Binary64.roundDiv
  simp only
  split <;> omega

/-- A rounded quotient is at most one above the quotient rounded down. -/
theorem roundDiv_le (a b : Nat) : Binary64.roundDiv a b ≤ a / b + 1 := by
  unfold Binary64.roundDiv
  simp only
  split <;> omega

/-! ## Rounding a ratio to a binary fraction -/

/-- A ratio and the logarithms of its parts. -/
theorem ratio_between {a b : Nat} (ha : 0 < a) (hb : 0 < b) :
    (2 : ℚ) ^ ((a.log2 : Int) - b.log2 - 1) < (a : ℚ) / b ∧
      (a : ℚ) / b < (2 : ℚ) ^ ((a.log2 : Int) - b.log2 + 1) := by
  have haq : (0 : ℚ) < a := by exact_mod_cast ha
  have hbq : (0 : ℚ) < b := by exact_mod_cast hb
  have halow : ((2 : ℚ)) ^ a.log2 ≤ a := by exact_mod_cast Nat.log2_self_le (by omega)
  have hahigh : (a : ℚ) < 2 ^ (a.log2 + 1) := by exact_mod_cast Nat.lt_log2_self
  have hblow : ((2 : ℚ)) ^ b.log2 ≤ b := by exact_mod_cast Nat.log2_self_le (by omega)
  have hbhigh : (b : ℚ) < 2 ^ (b.log2 + 1) := by exact_mod_cast Nat.lt_log2_self
  have hlow : (2 : ℚ) ^ ((a.log2 : Int) - b.log2 - 1) = 2 ^ a.log2 / 2 ^ (b.log2 + 1) := by
    have hexponent : (a.log2 : Int) - b.log2 - 1 = (a.log2 : Int) - ((b.log2 + 1 : Nat) : Int) := by
      omega
    rw [hexponent, zpow_sub₀ (by norm_num), zpow_natCast, zpow_natCast]
  have hhigh : (2 : ℚ) ^ ((a.log2 : Int) - b.log2 + 1) = 2 ^ (a.log2 + 1) / 2 ^ b.log2 := by
    have hexponent : (a.log2 : Int) - b.log2 + 1 = ((a.log2 + 1 : Nat) : Int) - (b.log2 : Int) := by
      omega
    rw [hexponent, zpow_sub₀ (by norm_num), zpow_natCast, zpow_natCast]
  rw [hlow, hhigh]
  constructor
  · rw [div_lt_div_iff₀ (by positivity) hbq]
    calc (2 : ℚ) ^ a.log2 * b ≤ a * b := by gcongr
      _ < a * 2 ^ (b.log2 + 1) := by gcongr
  · rw [div_lt_div_iff₀ hbq (by positivity)]
    calc (a : ℚ) * 2 ^ b.log2 ≤ a * b := by gcongr
      _ < 2 ^ (a.log2 + 1) * b := by gcongr

/-- The parts of a ratio that is scaled by a power of two. -/
theorem scaled_ratio {a b : Nat} (hb : 0 < b) (q : Int) :
    ((a * 2 ^ (-q).toNat : Nat) : ℚ) / ((b * 2 ^ q.toNat : Nat) : ℚ) = (a : ℚ) / b / 2 ^ q := by
  have hbq : (b : ℚ) ≠ 0 := by exact_mod_cast hb.ne'
  rw [zpow_eq_div_toNat 2 q]
  push_cast
  field_simp

/-- Whether a ratio is long enough can be told by the parts of the scaled one. -/
theorem le_scaled_iff {a b : Nat} (hb : 0 < b) (q : Int) (n : Nat) :
    n * (b * 2 ^ q.toNat) ≤ a * 2 ^ (-q).toNat ↔ (n : ℚ) * 2 ^ q ≤ (a : ℚ) / b := by
  have hpos : (0 : ℚ) < 2 ^ q := by positivity
  have hscaled : (0 : ℚ) < ((b * 2 ^ q.toNat : Nat) : ℚ) := by
    exact_mod_cast (by positivity : 0 < b * 2 ^ q.toNat)
  rw [← le_div_iff₀ hpos, ← scaled_ratio hb q, le_div_iff₀ hscaled]
  exact_mod_cast Iff.rfl

/-- The last part of rounding: a mantissa that has become too long is halved. -/
def normalized (negative : Bool) (m : Nat) (q : Int) : Binary64 :=
  let (m, q) := if m == 2 ^ 53 then (2 ^ 52, q + 1) else (m, q)
  if Binary64.greatestExponent < q then .infinity negative else .finite negative m q

/-- How a ratio is rounded: it is scaled so that its integer part has the length of a mantissa, or
less if the exponent is least. -/
theorem ofRatio_eq_normalized (negative : Bool) {a b : Nat} (ha : 0 < a) (hb : 0 < b) :
    ∃ (q : Int) (A B : Nat), 0 < B ∧ (A : ℚ) / B = (a : ℚ) / b / 2 ^ q ∧
      Binary64.leastExponent ≤ q ∧ A < 2 ^ 53 * B ∧
      (2 ^ 52 * B ≤ A ∨ q = Binary64.leastExponent) ∧
      Binary64.ofRatio negative a b = normalized negative (Binary64.roundDiv A B) q := by
  rcases ratio_between ha hb with ⟨hlow, hhigh⟩
  generalize hg : max ((a.log2 : Int) - b.log2 - 53) Binary64.leastExponent = g
  have hpos : ∀ q : Int, 0 < b * 2 ^ q.toNat := fun q => by positivity
  -- the guess is at most one too small
  have hguess : (a : ℚ) / b < 2 ^ 54 * 2 ^ g := by
    refine lt_of_lt_of_le hhigh ?_
    rw [← zpow_natCast (2 : ℚ) 54, ← zpow_add₀ (by norm_num)]
    exact zpow_le_zpow_right₀ (by norm_num) (by omega)
  have hdiv : 2 ^ 53 ≤ a * 2 ^ (-g).toNat / (b * 2 ^ g.toNat) ↔
      ((2 ^ 53 : Nat) : ℚ) * 2 ^ g ≤ (a : ℚ) / b := by
    rw [Nat.le_div_iff_mul_le (hpos g), le_scaled_iff hb]
  -- too long by a bit at this exponent, or of the right length
  by_cases hc : 2 ^ 53 ≤ a * 2 ^ (-g).toNat / (b * 2 ^ g.toNat)
  · refine ⟨g + 1, _, _, hpos (g + 1), scaled_ratio hb (g + 1), by omega, ?_, ?_, ?_⟩
    · refine Nat.lt_of_not_le fun hle => ?_
      rw [le_scaled_iff hb, zpow_succ] at hle
      push_cast at hle
      linarith
    · left
      rw [le_scaled_iff hb, zpow_succ]
      have hmany := hdiv.mp hc
      push_cast at hmany ⊢
      linarith
    · unfold Binary64.ofRatio
      simp only [hg, hc, if_true]
      rfl
  · refine ⟨g, _, _, hpos g, scaled_ratio hb g, by omega, ?_, ?_, ?_⟩
    · exact Nat.lt_of_not_le fun hle => hc ((Nat.le_div_iff_mul_le (hpos g)).mpr hle)
    · by_cases hleast : g = Binary64.leastExponent
      · exact Or.inr hleast
      · left
        have hexact : (a.log2 : Int) - b.log2 - 1 = ((52 : Nat) : Int) + g := by omega
        rw [le_scaled_iff hb]
        rw [hexact, zpow_add₀ (by norm_num), zpow_natCast] at hlow
        push_cast
        exact hlow.le
    · unfold Binary64.ofRatio
      simp only [hg, hc, if_false]
      rfl

/-- Bringing a full mantissa to its range gives the canonical form. -/
theorem normalized_isCanonical (negative : Bool) {m : Nat} {q : Int} (hm : m ≤ 2 ^ 53)
    (hleast : Binary64.leastExponent ≤ q) (hfull : 2 ^ 52 ≤ m ∨ q = Binary64.leastExponent) :
    (normalized negative m q).IsCanonical := by
  unfold normalized
  by_cases hcarry : m = 2 ^ 53
  · simp only [hcarry, beq_self_eq_true, if_true]
    split
    · trivial
    · exact ⟨by omega, by omega, by omega, Or.inl (Nat.le_refl _)⟩
  · simp only [beq_eq_false_iff_ne.mpr hcarry, Bool.false_eq_true, if_false]
    split
    · trivial
    · exact ⟨by omega, hleast, by omega, hfull⟩

/-- The number nearest to a quotient is in canonical form. -/
theorem ofRatio_isCanonical (negative : Bool) {a b : Nat} (ha : 0 < a) (hb : 0 < b) :
    (Binary64.ofRatio negative a b).IsCanonical := by
  rcases ofRatio_eq_normalized negative ha hb with ⟨q, A, B, hB, _, hleast, hlong, hfull, heq⟩
  rw [heq]
  refine normalized_isCanonical negative ?_ hleast ?_
  · have hdiv : A / B < 2 ^ 53 := (Nat.div_lt_iff_lt_mul hB).mpr hlong
    exact Nat.le_trans (roundDiv_le A B) hdiv
  · refine hfull.imp_left fun hge => ?_
    exact Nat.le_trans ((Nat.le_div_iff_mul_le hB).mpr hge) (div_le_roundDiv A B)

/-- Every number that is read from a decimal is kept in its one form. -/
theorem ofDecimal_isCanonical (negative : Bool) (digits : Nat) (exponent : Int) :
    (Binary64.ofDecimal negative digits exponent).IsCanonical := by
  unfold Binary64.ofDecimal
  simp only
  split
  · exact ⟨by norm_num, Int.le_refl _, by decide, Or.inr rfl⟩
  · rename_i hsize
    split
    · trivial
    · have hdigits : 0 < digits := by
        rcases Nat.eq_zero_or_pos digits with rfl | h
        · simp at hsize
        · exact h
      exact ofRatio_isCanonical negative (by positivity) (by positivity)

/-! ## The reals that round to a number -/

/-- How many quarters of a unit the reals that round to a number reach below it. -/
def quartersBelow (m : Nat) (q : Int) : Nat :=
  if m == 2 ^ 52 && q != Binary64.leastExponent then 1 else 2

/-- Does a real round to `m * 2 ^ q`? -/
structure RoundsTo (m : Nat) (q : Int) (x : ℚ) : Prop where
  lower : ((4 * m - quartersBelow m q : Nat) : ℚ) * 2 ^ (q - 2) ≤ x
  upper : x ≤ ((4 * m + 2 : Nat) : ℚ) * 2 ^ (q - 2)
  odd : m % 2 = 1 → ((4 * m - quartersBelow m q : Nat) : ℚ) * 2 ^ (q - 2) < x ∧
    x < ((4 * m + 2 : Nat) : ℚ) * 2 ^ (q - 2)

/-- The reals that round to a number reach at most two quarters below it. -/
theorem quartersBelow_le (m : Nat) (q : Int) : quartersBelow m q ≤ 2 := by
  unfold quartersBelow
  split <;> omega

/-- Where the exponent is not least, the reals that round to a number reach at most a quarter below
the least mantissa of full length. -/
theorem le_of_full {m : Nat} {q : Int} (hfull : 2 ^ 52 ≤ m) (hq : q ≠ Binary64.leastExponent) :
    2 ^ 54 - 1 ≤ 4 * m - quartersBelow m q := by
  unfold quartersBelow
  by_cases hm : m = 2 ^ 52
  · have hqb : (q != Binary64.leastExponent) = true := bne_iff_ne.mpr hq
    simp [hm, hqb]
  · have hmb : (m == 2 ^ 52) = false := beq_eq_false_iff_ne.mpr hm
    simp only [hmb, Bool.false_and, Bool.false_eq_true, if_false]
    omega

/-- Quarters of a unit compared with a ratio of units. -/
theorem quarters_le_iff {c A B : Nat} (hB : 0 < B) (q : Int) :
    (c : ℚ) * (2 ^ q / 4) ≤ (A : ℚ) / B * 2 ^ q ↔ c * B ≤ 4 * A := by
  have hBq : (0 : ℚ) < B := by exact_mod_cast hB
  have hpow : (0 : ℚ) < 2 ^ q := by positivity
  have hsplit : (c : ℚ) * (2 ^ q / 4) = c / 4 * 2 ^ q := by ring
  rw [hsplit, mul_le_mul_iff_left₀ hpow, div_le_div_iff₀ (by norm_num) hBq, mul_comm (A : ℚ)]
  exact_mod_cast Iff.rfl

/-- Comparing a quotient with quarters of a unit takes natural numbers alone. -/
theorem le_quarters_iff {c A B : Nat} (hB : 0 < B) (q : Int) :
    (A : ℚ) / B * 2 ^ q ≤ (c : ℚ) * (2 ^ q / 4) ↔ 4 * A ≤ c * B := by
  have hBq : (0 : ℚ) < B := by exact_mod_cast hB
  have hpow : (0 : ℚ) < 2 ^ q := by positivity
  have hsplit : (c : ℚ) * (2 ^ q / 4) = c / 4 * 2 ^ q := by ring
  rw [hsplit, mul_le_mul_iff_left₀ hpow, div_le_div_iff₀ hBq (by norm_num), mul_comm (A : ℚ)]
  exact_mod_cast Iff.rfl

section

variable {m A B : Nat} {p q : Int}

/-- A ratio of full length has no greater exponent than what it rounds to. -/
theorem RoundsTo.exponent_le (h : RoundsTo m q ((A : ℚ) / B * 2 ^ p)) (hB : 0 < B)
    (hc : IsCanonical m q) (hfull : 2 ^ 52 * B ≤ A ∨ p = Binary64.leastExponent) : p ≤ q := by
  by_contra hlt
  rcases hfull with hfull | hfull
  · have hfullq : (2 : ℚ) ^ 52 ≤ (A : ℚ) / B := by
      rw [le_div_iff₀ (by exact_mod_cast hB)]
      exact_mod_cast hfull
    have hstep : 2 * (2 : ℚ) ^ q ≤ 2 ^ p := by
      rw [← zpow_succ]
      exact zpow_le_zpow_right₀ (by norm_num) (by omega)
    -- at a lesser exponent the greatest mantissa with half a unit stays below the ratio
    have hmany : (2 : ℚ) ^ 52 * (2 * 2 ^ q) ≤ (A : ℚ) / B * 2 ^ p := by
      gcongr
    have hupper := h.upper
    have hsmall : (m : ℚ) + 1 ≤ 2 ^ 53 := by exact_mod_cast hc.small
    have hpow : (0 : ℚ) < 2 ^ q := by positivity
    rw [zpow_sub_two] at hupper
    push_cast at hupper
    nlinarith
  · have hleast := hc.least
    omega

/-- A ratio that is not too long rounds to something at most one exponent above it. -/
theorem RoundsTo.le_exponent (h : RoundsTo m q ((A : ℚ) / B * 2 ^ p)) (hB : 0 < B)
    (hc : IsCanonical m q) (hlong : A < 2 ^ 53 * B) (hleast : Binary64.leastExponent ≤ p) :
    q ≤ p + 1 := by
  by_contra hlt
  have hqne : q ≠ Binary64.leastExponent := by omega
  have hquarters := le_of_full (hc.full.resolve_right hqne) hqne
  have hquartersq : (2 : ℚ) ^ 54 - 1 ≤ ((4 * m - quartersBelow m q : Nat) : ℚ) := by
    have hcast : ((2 ^ 54 - 1 : Nat) : ℚ) ≤ ((4 * m - quartersBelow m q : Nat) : ℚ) := by
      exact_mod_cast hquarters
    norm_num at hcast ⊢
    exact hcast
  have hlongq : (A : ℚ) / B < 2 ^ 53 := by
    rw [div_lt_iff₀ (by exact_mod_cast hB)]
    exact_mod_cast hlong
  have hstep : 4 * (2 : ℚ) ^ p ≤ 2 ^ q := by
    have hfour : (4 : ℚ) * 2 ^ p = 2 ^ (p + 1 + 1) := by
      rw [zpow_succ, zpow_succ]
      ring
    rw [hfour]
    exact zpow_le_zpow_right₀ (by norm_num) (by omega)
  -- two exponents above, the least mantissa less a quarter is beyond the ratio
  have hmany : ((2 : ℚ) ^ 54 - 1) * (4 * 2 ^ p / 4) ≤
      ((4 * m - quartersBelow m q : Nat) : ℚ) * (2 ^ q / 4) := by
    gcongr
  have hlower := h.lower
  have hpow : (0 : ℚ) < 2 ^ p := by positivity
  rw [zpow_sub_two] at hlower
  nlinarith

/-- At the exponent of the ratio the mantissa is the nearest integer. -/
theorem RoundsTo.roundDiv_eq (h : RoundsTo m p ((A : ℚ) / B * 2 ^ p)) (hB : 0 < B) :
    Binary64.roundDiv A B = m := by
  have hbelow := quartersBelow_le m p
  have hlower := h.lower
  have hupper := h.upper
  rw [zpow_sub_two, quarters_le_iff hB] at hlower
  rw [zpow_sub_two, le_quarters_iff hB] at hupper
  have hlowB : (4 * m - quartersBelow m p) * B + 2 * B ≥ 4 * (m * B) := by
    rw [← Nat.add_mul, ← Nat.mul_assoc]
    exact Nat.mul_le_mul_right B (by omega)
  rw [Nat.add_mul, Nat.mul_assoc] at hupper
  refine Decimal.roundDiv_eq hB (by omega) (by omega) fun hodd => ?_
  have hstrict := h.odd hodd
  rw [zpow_sub_two, ← not_le, ← not_le, le_quarters_iff hB, quarters_le_iff hB,
    Nat.add_mul, Nat.mul_assoc 4 m B] at hstrict
  omega

/-- One exponent above that of the ratio the mantissa is the least of full length: the ratio is just
below it, and is rounded up to it. -/
theorem RoundsTo.roundDiv_carry (h : RoundsTo m (p + 1) ((A : ℚ) / B * 2 ^ p)) (hB : 0 < B)
    (hc : IsCanonical m (p + 1)) (hlong : A < 2 ^ 53 * B) (hleast : Binary64.leastExponent ≤ p) :
    m = 2 ^ 52 ∧ Binary64.roundDiv A B = 2 ^ 53 := by
  have hqne : p + 1 ≠ Binary64.leastExponent := by omega
  have hmfull := hc.full.resolve_right hqne
  have hquarters := le_of_full hmfull hqne
  have hbelow := quartersBelow_le m (p + 1)
  have hlow : ((2 * (4 * m - quartersBelow m (p + 1)) : Nat) : ℚ) * (2 ^ p / 4) ≤
      (A : ℚ) / B * 2 ^ p := by
    have hlower := h.lower
    rw [zpow_sub_two, zpow_succ] at hlower
    push_cast at hlower ⊢
    linarith
  rw [quarters_le_iff hB, Nat.mul_assoc] at hlow
  have hquartersB := Nat.mul_le_mul_right B hquarters
  -- the bound from below leaves the least mantissa of full length only
  have hmB : 4 * m - quartersBelow m (p + 1) < 2 ^ 54 :=
    Nat.lt_of_mul_lt_mul_right (a := B) (by omega)
  exact ⟨by omega, Decimal.roundDiv_eq hB (by omega) (by omega) (by omega)⟩

end

/-- A ratio rounds to the number among whose reals it lies. -/
theorem ofRatio_eq (negative : Bool) {a b m : Nat} {q : Int} (ha : 0 < a) (hb : 0 < b)
    (hc : IsCanonical m q) (h : RoundsTo m q ((a : ℚ) / b)) :
    Binary64.ofRatio negative a b = .finite negative m q := by
  rcases ofRatio_eq_normalized negative ha hb with ⟨p, A, B, hB, hratio, hleast, hlong, hfull, heq⟩
  have hx : (a : ℚ) / b = (A : ℚ) / B * 2 ^ p := by
    rw [hratio]
    field_simp
  rw [hx] at h
  have hgreatest : ¬ Binary64.greatestExponent < q := Int.not_lt.mpr hc.greatest
  rw [heq]
  unfold normalized
  -- the exponent is the same or one less
  rcases Int.lt_or_eq_of_le (h.exponent_le hB hc hfull) with hlt | rfl
  · have hq : q = p + 1 := Int.le_antisymm (h.le_exponent hB hc hlong hleast) hlt
    subst hq
    rcases h.roundDiv_carry hB hc hlong hleast with ⟨rfl, hround⟩
    simp only [hround, beq_self_eq_true, if_true, hgreatest, if_false]
  · have hm := hc.small
    have hcarry : (m == 2 ^ 53) = false := beq_eq_false_iff_ne.mpr (by omega)
    simp only [h.roundDiv_eq hB, hcarry, Bool.false_eq_true, if_false, hgreatest]

/-! ## Rounding decimals -/

/-- What a scaled integer stands for. -/
def Scaled.value (d : Scaled) : ℚ := d.digits * 10 ^ d.exponent

/-- A decimal that rounds to a positive number has a digit. -/
theorem digits_pos_of_roundsTo {m D : Nat} {q E : Int} (hm : 0 < m)
    (h : RoundsTo m q ((D : ℚ) * 10 ^ E)) : 0 < D := by
  have hbelow := quartersBelow_le m q
  have hpos : (0 : ℚ) < ((4 * m - quartersBelow m q : Nat) : ℚ) := by
    have hnat : 0 < 4 * m - quartersBelow m q := by omega
    exact_mod_cast hnat
  have hvalue : (0 : ℚ) < (D : ℚ) * 10 ^ E := lt_of_lt_of_le (by positivity) h.lower
  rcases Nat.eq_zero_or_pos D with rfl | hD
  · simp at hvalue
  · exact hD

/-- A positive integer has as many digits as its size asks for. -/
theorem toDigits_length_bounds {D : Nat} (hD : 0 < D) :
    10 ^ ((Nat.toDigits 10 D).length - 1) ≤ D ∧ D < 10 ^ (Nat.toDigits 10 D).length := by
  have hlength : 0 < (Nat.toDigits 10 D).length := Nat.length_toDigits_pos
  refine ⟨?_, (Nat.length_toDigits_le_iff (by omega) hlength).mp (Nat.le_refl _)⟩
  rcases Nat.eq_zero_or_pos ((Nat.toDigits 10 D).length - 1) with hone | hmore
  · rw [hone]
    exact hD
  · refine Nat.le_of_not_lt fun hlt => ?_
    have hshort := (Nat.length_toDigits_le_iff (by omega) hmore).mpr hlt
    omega

/-- The reals that round to a number lie within the bounds of all numbers. -/
theorem RoundsTo.between {m : Nat} {q : Int} {x : ℚ} (hm : 0 < m) (hc : IsCanonical m q)
    (h : RoundsTo m q x) : (10 : ℚ) ^ (-330 : Int) < x ∧ x < (10 : ℚ) ^ (309 : Int) := by
  have hbelow := quartersBelow_le m q
  have hleast := hc.least
  have hgreatest := hc.greatest
  have hsmall := hc.small
  unfold Binary64.leastExponent at hleast
  unfold Binary64.greatestExponent at hgreatest
  constructor
  · have htwo : (2 : ℚ) ≤ ((4 * m - quartersBelow m q : Nat) : ℚ) := by
      have hnat : 2 ≤ 4 * m - quartersBelow m q := by omega
      exact_mod_cast hnat
    have hpow : (2 : ℚ) ^ (-1076 : Int) ≤ 2 ^ (q - 2) :=
      zpow_le_zpow_right₀ (by norm_num) (by omega)
    have hbound : (10 : ℚ) ^ (-330 : Int) < 2 * 2 ^ (-1076 : Int) := by
      -- the two bounds meet the powers of ten that the reader compares with
      have hnat : 2 ^ 1076 < 2 * 10 ^ 330 := by decide +kernel
      have hcast : ((2 ^ 1076 : Nat) : ℚ) < ((2 * 10 ^ 330 : Nat) : ℚ) := Nat.cast_lt.mpr hnat
      rw [Nat.cast_mul, Nat.cast_pow, Nat.cast_pow] at hcast
      have hten : (10 : ℚ) ^ (-330 : Int) = 1 / 10 ^ 330 := by
        rw [zpow_neg, one_div]
        rfl
      have htwo' : 2 * (2 : ℚ) ^ (-1076 : Int) = 2 / 2 ^ 1076 := by
        rw [zpow_neg, div_eq_mul_inv]
        rfl
      rw [hten, htwo', div_lt_div_iff₀ (by positivity) (by positivity), one_mul]
      exact hcast
    calc (10 : ℚ) ^ (-330 : Int) < 2 * 2 ^ (-1076 : Int) := hbound
      _ ≤ ((4 * m - quartersBelow m q : Nat) : ℚ) * 2 ^ (q - 2) := by gcongr
      _ ≤ x := h.lower
  · have hmany : ((4 * m + 2 : Nat) : ℚ) ≤ 2 ^ 55 := by
      have hnat : 4 * m + 2 ≤ 2 ^ 55 := by omega
      exact_mod_cast hnat
    have hpow : (2 : ℚ) ^ (q - 2) ≤ 2 ^ (969 : Int) :=
      zpow_le_zpow_right₀ (by norm_num) (by omega)
    have hbound : (2 : ℚ) ^ 55 * 2 ^ (969 : Int) < 10 ^ (309 : Int) := by
      have hnat : 2 ^ 55 * 2 ^ 969 < 10 ^ 309 := by decide +kernel
      have hcast : ((2 ^ 55 * 2 ^ 969 : Nat) : ℚ) < ((10 ^ 309 : Nat) : ℚ) := Nat.cast_lt.mpr hnat
      rw [Nat.cast_mul, Nat.cast_pow, Nat.cast_pow, Nat.cast_pow] at hcast
      exact hcast
    calc x ≤ ((4 * m + 2 : Nat) : ℚ) * 2 ^ (q - 2) := h.upper
      _ ≤ 2 ^ 55 * 2 ^ (969 : Int) := by gcongr
      _ < (10 : ℚ) ^ (309 : Int) := hbound

/-- A decimal rounds to the number among whose reals it lies. -/
theorem ofDecimal_eq {negative : Bool} {m D : Nat} {q E : Int} (hm : 0 < m) (hc : IsCanonical m q)
    (h : RoundsTo m q ((D : ℚ) * 10 ^ E)) :
    Binary64.ofDecimal negative D E = .finite negative m q := by
  have hD := digits_pos_of_roundsTo hm h
  rcases h.between hm hc with ⟨hlow, hhigh⟩
  rcases toDigits_length_bounds hD with ⟨hlengthLow, hlengthHigh⟩
  have hlength : 0 < (Nat.toDigits 10 D).length := Nat.length_toDigits_pos
  rcases Nat.exists_eq_succ_of_ne_zero hlength.ne' with ⟨l, hl⟩
  rw [hl] at hlengthLow hlengthHigh
  have hten : ∀ k : Int, (0 : ℚ) < 10 ^ k := fun k => by positivity
  -- the number of digits and the exponent together bound the value from both sides
  have hless : (D : ℚ) * 10 ^ E < 10 ^ (((l + 1 : Nat) : Int) + E) := by
    rw [zpow_add₀ (by norm_num), zpow_natCast]
    have hcast : (D : ℚ) < 10 ^ (l + 1) := by exact_mod_cast hlengthHigh
    exact mul_lt_mul_of_pos_right hcast (hten E)
  have hmore : (10 : ℚ) ^ ((l : Int) + E) ≤ (D : ℚ) * 10 ^ E := by
    rw [zpow_add₀ (by norm_num), zpow_natCast]
    have hcast : (10 : ℚ) ^ l ≤ D := by exact_mod_cast hlengthLow
    exact mul_le_mul_of_nonneg_right hcast (hten E).le
  have hsizeLow : -330 < ((l + 1 : Nat) : Int) + E :=
    (zpow_lt_zpow_iff_right₀ (by norm_num)).mp (lt_trans hlow hless)
  have hsizeHigh : (l : Int) + E < 309 :=
    (zpow_lt_zpow_iff_right₀ (by norm_num)).mp (lt_of_le_of_lt hmore hhigh)
  have hratio : ((D * 10 ^ E.toNat : Nat) : ℚ) / ((10 ^ (-E).toNat : Nat) : ℚ) = D * 10 ^ E := by
    rw [zpow_eq_div_toNat 10 E]
    push_cast
    ring
  have hround := ofRatio_eq negative (a := D * 10 ^ E.toNat) (b := 10 ^ (-E).toNat)
    (by positivity) (by positivity) hc (hratio ▸ h)
  have hnotSmall : (D == 0 || decide (((l + 1 : Nat) : Int) + E < -330)) = false := by
    have hne : (D == 0) = false := beq_eq_false_iff_ne.mpr hD.ne'
    rw [hne, Bool.false_or, decide_eq_false_iff_not]
    omega
  unfold Binary64.ofDecimal
  simp only [hl]
  rw [hnotSmall, if_neg (by decide), if_neg (by omega)]
  exact hround

/-! ## The shortest decimal -/

/-- The comparison of a decimal with a binary number is that of their values. -/
theorem compareScaled_eq (a : Nat) (i : Int) (b : Nat) (j : Int) :
    (compareScaled a i b j = .lt ↔ (a : ℚ) * 10 ^ i < b * 2 ^ j) ∧
      (compareScaled a i b j = .gt ↔ (b : ℚ) * 2 ^ j < a * 10 ^ i) := by
  have hten : (a : ℚ) * 10 ^ i = ((a * 10 ^ i.toNat : Nat) : ℚ) / ((10 ^ (-i).toNat : Nat) : ℚ) := by
    rw [zpow_eq_div_toNat 10 i]
    push_cast
    ring
  have htwo : (b : ℚ) * 2 ^ j = ((b * 2 ^ j.toNat : Nat) : ℚ) / ((2 ^ (-j).toNat : Nat) : ℚ) := by
    rw [zpow_eq_div_toNat 2 j]
    push_cast
    ring
  have hp : (0 : ℚ) < ((10 ^ (-i).toNat : Nat) : ℚ) := by positivity
  have hq : (0 : ℚ) < ((2 ^ (-j).toNat : Nat) : ℚ) := by positivity
  unfold compareScaled
  rw [hten, htwo, Nat.compare_eq_lt, Nat.compare_eq_gt, div_lt_div_iff₀ hp hq,
    div_lt_div_iff₀ hq hp]
  constructor
  · exact_mod_cast Iff.rfl
  · exact_mod_cast Iff.rfl

/-- A decimal reads back exactly if it is one of the reals that round to the number. -/
theorem readsBack_iff {m : Nat} {q : Int} {d : Scaled} :
    readsBack m q d = true ↔ RoundsTo m q d.value := by
  have hlow := compareScaled_eq d.digits d.exponent (4 * m - quartersBelow m q) (q - 2)
  have hhigh := compareScaled_eq d.digits d.exponent (4 * m + 2) (q - 2)
  have hsame : readsBack m q d =
      let lower := compareScaled d.digits d.exponent (4 * m - quartersBelow m q) (q - 2)
      let upper := compareScaled d.digits d.exponent (4 * m + 2) (q - 2)
      if m % 2 == 0 then lower != .lt && upper != .gt else lower == .gt && upper == .lt := rfl
  rw [hsame]
  simp only
  by_cases heven : m % 2 = 0
  · rw [heven, beq_self_eq_true, if_pos rfl, Bool.and_eq_true, bne_iff_ne, bne_iff_ne, ne_eq, ne_eq,
      hlow.1, hhigh.2, not_lt, not_lt]
    exact ⟨fun h => ⟨h.1, h.2, fun hodd => by omega⟩, fun h => ⟨h.lower, h.upper⟩⟩
  · rw [beq_eq_false_iff_ne.mpr heven, if_neg (by decide), Bool.and_eq_true, beq_iff_eq, beq_iff_eq,
      hlow.2, hhigh.1]
    exact ⟨fun h => ⟨h.1.le, h.2.le, fun _ => h⟩, fun h => h.odd (by omega)⟩

/-- What is chosen of two decimals reads back. -/
theorem readsBack_of_nearest? {m : Nat} {q e : Int} {d : Scaled} (h : nearest? m q e = some d) :
    readsBack m q d = true := by
  unfold nearest? at h
  simp only at h
  split at h
  · cases h
  · rename_i hbelow _
    rw [← Option.some.inj h]
    exact hbelow
  · rename_i _ habove
    rw [← Option.some.inj h]
    exact habove
  · rename_i hbelow habove
    split at h
    · rw [← Option.some.inj h]
      exact hbelow
    · rw [← Option.some.inj h]
      exact habove
    · rw [← Option.some.inj h]
      split
      · exact hbelow
      · exact habove

/-- A number rounds to itself. -/
theorem roundsTo_self {m : Nat} (hm : 0 < m) (q : Int) : RoundsTo m q ((m : ℚ) * 2 ^ q) := by
  have hpow : (0 : ℚ) < 2 ^ q := by positivity
  have hbelow : 1 ≤ quartersBelow m q := by
    unfold quartersBelow
    split <;> omega
  have hless : ((4 * m - quartersBelow m q : Nat) : ℚ) < 4 * m := by
    have hnat : 4 * m - quartersBelow m q < 4 * m := by omega
    exact_mod_cast hnat
  have hlower : ((4 * m - quartersBelow m q : Nat) : ℚ) * 2 ^ (q - 2) < (m : ℚ) * 2 ^ q := by
    rw [zpow_sub_two]
    nlinarith
  have hupper : (m : ℚ) * 2 ^ q < ((4 * m + 2 : Nat) : ℚ) * 2 ^ (q - 2) := by
    rw [zpow_sub_two]
    push_cast
    nlinarith
  exact ⟨hlower.le, hupper.le, fun _ => ⟨hlower, hupper⟩⟩

/-- The exact value of a number as a decimal. -/
theorem value_exact (m : Nat) (q : Int) :
    Scaled.value ⟨m * 2 ^ q.toNat * 5 ^ (-q).toNat, min q 0⟩ = (m : ℚ) * 2 ^ q := by
  have hexponent : min q 0 = -(((-q).toNat : Nat) : Int) := by omega
  have hten : (10 : ℚ) ^ (-q).toNat = 2 ^ (-q).toNat * 5 ^ (-q).toNat := by
    rw [← mul_pow]
    norm_num
  unfold Scaled.value
  rw [zpow_eq_div_toNat 2 q, hexponent, zpow_neg, zpow_natCast, hten]
  push_cast
  field_simp

/-- The decimal that the search ends with rounds to the number. -/
theorem roundsTo_searchFrom {m : Nat} (hm : 0 < m) (q : Int) (n : Nat) (e : Int) :
    RoundsTo m q (searchFrom m q n e).value := by
  -- when the search ends without a find it falls back on the exact value
  induction n generalizing e with
  | zero =>
      rw [searchFrom, value_exact]
      exact roundsTo_self hm q
  | succ n ih =>
      rw [searchFrom]
      cases hnearest : nearest? m q e with
      | none => exact ih (e - 1)
      | some d => exact readsBack_iff.mp (readsBack_of_nearest? hnearest)

/-- Zeros at the end are dropped without changing the value. -/
theorem value_stripZeros (n : Nat) (d : Scaled) : (d.stripZeros n).value = d.value := by
  induction n generalizing d with
  | zero => rfl
  | succ n ih =>
      unfold Scaled.stripZeros
      split
      · rename_i hzero
        rw [ih]
        simp only [Bool.and_eq_true, beq_iff_eq] at hzero
        have hdigits : (d.digits : ℚ) = 10 * ((d.digits / 10 : Nat) : ℚ) := by
          have hnat : d.digits = 10 * (d.digits / 10) := by omega
          exact_mod_cast hnat
        unfold Scaled.value
        rw [hdigits, zpow_add_one₀ (by norm_num)]
        ring
      · rfl

/-- The shortest decimal is among the reals that round to the number. -/
theorem roundsTo_shortest {m : Nat} (hm : 0 < m) (q : Int) : RoundsTo m q (shortest m q).value := by
  have hne : (m == 0) = false := beq_eq_false_iff_ne.mpr (by omega)
  unfold shortest
  rw [hne, if_neg (by decide)]
  simp only
  rw [value_stripZeros]
  exact roundsTo_searchFrom hm q _ _

/-- A decimal of the same value as the shortest one of a number is read as that number. -/
theorem ofDecimal_eq_of_value {negative : Bool} {m D : Nat} {q E : Int} (hc : IsCanonical m q)
    (h : (D : ℚ) * 10 ^ E = (shortest m q).value) :
    Binary64.ofDecimal negative D E = .finite negative m q := by
  rcases Nat.eq_zero_or_pos m with rfl | hm
  -- zero has one form only
  · have hq : q = Binary64.leastExponent := hc.full.resolve_left (by norm_num)
    have hzero : (D : ℚ) * 10 ^ E = 0 := by
      rw [h]
      simp [shortest, Scaled.value]
    have hten : (10 : ℚ) ^ E ≠ 0 := by positivity
    have hD : D = 0 := by
      exact_mod_cast (mul_eq_zero.mp hzero).resolve_right hten
    subst hD hq
    rfl
  · exact ofDecimal_eq hm hc (h ▸ roundsTo_shortest hm q)

end OperatorBundle.Decimal
