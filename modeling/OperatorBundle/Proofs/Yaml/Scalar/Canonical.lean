import OperatorBundle.Proofs.Decimal.Shortest
import OperatorBundle.Proofs.Yaml.Proper
import Mathlib.Data.Nat.Factorization.Basic

/-!
# The spelling in which values are written

A truth value or a number can be spelled in many ways, of which it is written in one.  What that
spelling is, is said here of the texts themselves; it is then shown to be what is written.
-/

namespace OperatorBundle.Yaml

open Decimal (Scaled IsCanonical IsShortest)

namespace Number

/-! ## The spellings -/

/-- Digits, of which the first is zero only if it is the only one. -/
structure IsNumeral (digits : List Char) : Prop where
  ne_nil : digits ≠ []
  all_digits : ∀ c ∈ digits, isDigit c = true
  lead : digits.head? = some '0' → digits = ['0']

/-- How a decimal without sign is laid out.  From `10 ^ -5` to below `10 ^ 16`, and for zero, there is
a point with digits on both sides and no digit that could be left out; other decimals have a first
digit that is not zero, further ones behind a point if there are any, and an exponent. -/
inductive IsLayout : List Char → ℚ → Prop
  | pointed {whole places : List Char} {x : ℚ} (hwhole : IsNumeral whole) (hplaces : places ≠ [])
      (hdigits : ∀ c ∈ places, isDigit c = true) (hlast : places.getLast? = some '0' → places = ['0'])
      (hx : ((Nat.ofDigitChars 10 (whole ++ places) 0 : Nat) : ℚ) * 10 ^ (0 - (places.length : Int)) = x)
      (hsize : x = 0 ∨ 10 ^ (-5 : Int) ≤ x ∧ x < 10 ^ (16 : Int)) :
      IsLayout (whole ++ '.' :: places) x
  | raised {first : Char} {places : List Char} {k : Int} {x : ℚ}
      (hdigits : ∀ c ∈ first :: places, isDigit c = true) (hfirst : first ≠ '0')
      (hlast : places.getLast? ≠ some '0') (hk : k < -5 ∨ 16 ≤ k)
      (hx : ((Nat.ofDigitChars 10 (first :: places) 0 : Nat) : ℚ) * 10 ^ (k - (places.length : Int)) = x) :
      IsLayout (first :: (if places.isEmpty then [] else '.' :: places) ++ 'e' :: (toString k).toList) x

end Number

/-- Is this the spelling in which a truth value or a number is written?  An integer has no sign but a
minus, no mark of a base and no zero in front; a fraction has the digits of the shortest decimal that
is read as the same number. -/
inductive Value.IsSpelling : List Char → Prop
  | bool (b : Bool) : IsSpelling (toString b).toList
  | integer {n : Int} (hleast : -2 ^ 63 ≤ n) (hgreatest : n < 2 ^ 64) : IsSpelling (toString n).toList
  | infinity : IsSpelling ".inf".toList
  | minusInfinity : IsSpelling "-.inf".toList
  | nan : IsSpelling ".nan".toList
  | fraction {negative : Bool} {m : Nat} {q : Int} {body : List Char} {x : ℚ} (hc : IsCanonical m q)
      (hx : IsShortest m q x) (hbody : Number.IsLayout body x) :
      IsSpelling ((if negative then ['-'] else []) ++ body)

/-- Is this a truth value or a number? -/
inductive Value.IsTyped : Value → Prop
  | bool (b : Bool) : IsTyped (bool b)
  | number (n : Number) : IsTyped (number n)

instance Value.decidableIsTyped : (v : Value) → Decidable v.IsTyped
  | bool b => .isTrue (.bool b)
  | number n => .isTrue (.number n)
  | null => .isFalse fun h => nomatch h
  | string _ => .isFalse fun h => nomatch h
  | sequence _ => .isFalse fun h => nomatch h
  | mapping _ => .isFalse fun h => nomatch h
  | tagged _ _ => .isFalse fun h => nomatch h

/-- Is this what is written of the truth value or number that a text spells?  It spells the same, and
it is the text itself exactly if the text is the spelling that is written. -/
structure Value.IsWritten (text : List Char) (written : String) : Prop where
  spelling : IsSpelling written.toList
  same : ofPlain written.toList = ofPlain text
  kept : written = String.ofList text ↔ IsSpelling text

namespace Number

/-! ## Numerals -/

/-- A digit is the character of its own value. -/
theorem digitChar_of_isDigit {c : Char} (h : isDigit c = true) :
    (c.toNat - '0'.toNat).digitChar = c := by
  have hsmall := sub_lt_ten_of_isDigit h
  unfold isDigit at h
  rw [Bool.and_eq_true, decide_eq_true_eq, decide_eq_true_eq] at h
  have hlow : '0'.toNat ≤ c.toNat := h.1
  have hzero : '0'.toNat = 48 := rfl
  have hchar : (c.toNat - '0'.toNat).digitChar.toNat = c.toNat := by
    rw [Nat.toNat_digitChar_of_lt_ten hsmall]
    omega
  exact Char.toNat_inj.mp hchar

/-- Further digits behind those of a number that is not zero. -/
theorem toDigits_append_digits {digits : List Char} {n : Nat} (hn : 0 < n)
    (h : ∀ c ∈ digits, isDigit c = true) :
    Nat.toDigits 10 n ++ digits = Nat.toDigits 10 (Nat.ofDigitChars 10 digits n) := by
  induction digits generalizing n with
  | nil => simp [Nat.ofDigitChars_nil]
  | cons c digits ih =>
      have hc := h c List.mem_cons_self
      have hsmall := sub_lt_ten_of_isDigit hc
      have hone : Nat.toDigits 10 n ++ [c] = Nat.toDigits 10 (10 * n + (c.toNat - '0'.toNat)) := by
        rw [← Nat.toDigits_append_toDigits (by decide) hn hsmall, Nat.toDigits_of_lt_base hsmall,
          digitChar_of_isDigit hc]
      calc Nat.toDigits 10 n ++ c :: digits = (Nat.toDigits 10 n ++ [c]) ++ digits := by simp
        _ = Nat.toDigits 10 (10 * n + (c.toNat - '0'.toNat)) ++ digits := by rw [hone]
        _ = Nat.toDigits 10 (Nat.ofDigitChars 10 (c :: digits) n) := by
          rw [Nat.ofDigitChars_cons]
          exact ih (by omega) fun d hd => h d (List.mem_cons_of_mem c hd)

/-- The decimal digits of a number are a numeral. -/
theorem isNumeral_toDigits (n : Nat) : IsNumeral (Nat.toDigits 10 n) := by
  refine ⟨Nat.toDigits_ne_nil, fun c hc => isDigit_of_mem_toDigits hc, fun hlead => ?_⟩
  rcases Nat.eq_zero_or_pos n with rfl | hn
  · rfl
  · exact absurd hlead (head?_toDigits hn)

/-- A numeral that does not begin with zero is what its number is written in. -/
theorem toDigits_ofDigitChars {c : Char} {digits : List Char}
    (h : ∀ d ∈ c :: digits, isDigit d = true) (hc : c ≠ '0') :
    0 < Nat.ofDigitChars 10 (c :: digits) 0 ∧
      Nat.toDigits 10 (Nat.ofDigitChars 10 (c :: digits) 0) = c :: digits := by
  have hfirst := h c List.mem_cons_self
  have hsmall := sub_lt_ten_of_isDigit hfirst
  have hpos : 0 < c.toNat - '0'.toNat := by
    refine Nat.pos_of_ne_zero fun hzero => hc ?_
    have hchar := digitChar_of_isDigit hfirst
    rw [hzero] at hchar
    exact hchar.symm
  have hrest := toDigits_append_digits hpos fun d hd => h d (List.mem_cons_of_mem c hd)
  rw [Nat.toDigits_of_lt_base hsmall, digitChar_of_isDigit hfirst] at hrest
  rw [Nat.ofDigitChars_cons, Nat.mul_zero, Nat.zero_add]
  refine ⟨?_, hrest.symm⟩
  rw [Nat.ofDigitChars_eq_ofDigitChars_zero]
  positivity

/-- The last digit tells whether ten goes into a number. -/
theorem ofDigitChars_mod {digits : List Char} {c : Char} (hlast : digits.getLast? = some c)
    (hc : isDigit c = true) : Nat.ofDigitChars 10 digits 0 % 10 = c.toNat - '0'.toNat := by
  obtain ⟨front, rfl⟩ := List.getLast?_eq_some_iff.mp hlast
  have hsmall := sub_lt_ten_of_isDigit hc
  rw [Nat.ofDigitChars_append, Nat.ofDigitChars_cons, Nat.ofDigitChars_nil]
  omega

/-- Digits that do not end in a zero are no multiple of ten. -/
theorem mod_ne_zero_of_getLast? (front : List Char) {digits : List Char}
    (h : ∀ c ∈ front ++ digits, isDigit c = true) (hne : digits ≠ [])
    (hlast : digits.getLast? ≠ some '0') : Nat.ofDigitChars 10 (front ++ digits) 0 % 10 ≠ 0 := by
  obtain ⟨c, hc⟩ := Option.ne_none_iff_exists'.mp (mt List.getLast?_eq_none_iff.mp hne)
  have hdigit := h c (List.mem_append_right front (List.mem_of_getLast? hc))
  have hall : (front ++ digits).getLast? = some c := by
    rw [List.getLast?_append, hc]
    rfl
  rw [ofDigitChars_mod hall hdigit]
  intro hzero
  have hchar := digitChar_of_isDigit hdigit
  rw [hzero] at hchar
  exact hlast (hc.trans (congrArg some hchar.symm))

/-- Digits that do not end in zero are zeros and digits that do not begin with zero. -/
theorem exists_zeros_append {digits : List Char} (hne : digits ≠ [])
    (hlast : digits.getLast? ≠ some '0') :
    ∃ (j : Nat) (c : Char) (r : List Char), digits = List.replicate j '0' ++ c :: r ∧ c ≠ '0' := by
  induction digits with
  | nil => exact absurd rfl hne
  | cons d digits ih =>
      by_cases hd : d = '0'
      · subst hd
        cases digits with
        | nil => exact absurd rfl hlast
        | cons e digits =>
            rw [List.getLast?_cons_cons] at hlast
            obtain ⟨j, c, r, hsplit, hc⟩ := ih (List.cons_ne_nil e digits) hlast
            exact ⟨j + 1, c, r, by rw [hsplit]; rfl, hc⟩
      · exact ⟨0, d, digits, rfl, hd⟩

/-- What is no multiple of ten is written without a zero at the end. -/
theorem getLast?_toDigits {n : Nat} (hn : n % 10 ≠ 0) : (Nat.toDigits 10 n).getLast? ≠ some '0' := by
  intro hlast
  have hmod := ofDigitChars_mod hlast (by decide)
  rw [Nat.ofDigitChars_ten_toDigits] at hmod
  exact hn hmod

/-! ## Decimals without zeros at the end -/

/-- Is this the decimal of its value with the fewest digits?  Zero is taken with the exponent zero. -/
def IsReduced (d : Scaled) : Prop := d.digits % 10 ≠ 0 ∨ d = ⟨0, 0⟩

theorem IsReduced.digits_pos {d : Scaled} (h : IsReduced d) (hne : d ≠ ⟨0, 0⟩) : 0 < d.digits := by
  have hmod := h.resolve_right hne
  omega

/-- Two decimals of one value are the same if the one with the smaller exponent has no zero at the
end. -/
theorem eq_of_value_eq_of_le {d d' : Scaled} (hd : d.digits % 10 ≠ 0)
    (hle : d.exponent ≤ d'.exponent) (hvalue : d.value = d'.value) : d = d' := by
  obtain ⟨D, e⟩ := d
  obtain ⟨D', e'⟩ := d'
  change (D : ℚ) * 10 ^ e = (D' : ℚ) * 10 ^ e' at hvalue
  rw [Decimal.multiple_eq D' hle] at hvalue
  have hcancel := mul_right_cancel₀ (by positivity) hvalue
  have hdigits : D = D' * 10 ^ (e' - e).toNat := by exact_mod_cast hcancel
  have hexponent : (e' - e).toNat = 0 := by
    by_contra hne
    obtain ⟨k, hk⟩ := Nat.exists_eq_succ_of_ne_zero hne
    rw [hk, Nat.pow_succ, ← Nat.mul_assoc] at hdigits
    change D % 10 ≠ 0 at hd
    omega
  rw [hexponent, Nat.pow_zero, Nat.mul_one] at hdigits
  have hsame : e = e' := by
    change e ≤ e' at hle
    omega
  rw [hdigits, hsame]

/-- A value has one such decimal. -/
theorem IsReduced.eq_of_value_eq {d d' : Scaled} (hd : IsReduced d) (hd' : IsReduced d')
    (hvalue : d.value = d'.value) : d = d' := by
  have hzero : ∀ {c : Scaled}, IsReduced c → c.value = 0 → c = ⟨0, 0⟩ := by
    intro c hc hvalue
    by_contra hne
    have hpos : (0 : ℚ) < c.digits := by exact_mod_cast hc.digits_pos hne
    have hten : (0 : ℚ) < 10 ^ c.exponent := by positivity
    exact absurd hvalue (mul_pos hpos hten).ne'
  rcases hd with hmod | rfl
  · rcases hd' with hmod' | rfl
    · rcases le_total d.exponent d'.exponent with hle | hle
      · exact eq_of_value_eq_of_le hmod hle hvalue
      · exact (eq_of_value_eq_of_le hmod' hle hvalue.symm).symm
    · exact hzero (.inl hmod) (hvalue.trans (by simp [Scaled.value]))
  · exact (hzero hd' (hvalue.symm.trans (by simp [Scaled.value]))).symm

/-- The shortest decimal of a number has no zero at the end. -/
theorem isReduced_shortest {m : Nat} {q : Int} (hc : IsCanonical m q) :
    IsReduced (Decimal.shortest m q) := by
  rcases Nat.eq_zero_or_pos m with rfl | hm
  · exact .inr rfl
  · exact .inl (Decimal.digits_shortest_mod hm hc.small)

/-- A decimal lies between the powers of ten that the place of its point tells. -/
theorem value_between_powers {d : Scaled} (hd : 0 < d.digits) :
    (10 : ℚ) ^ (((Nat.toDigits 10 d.digits).length : Int) + d.exponent - 1) ≤ d.value ∧
      d.value < (10 : ℚ) ^ (((Nat.toDigits 10 d.digits).length : Int) + d.exponent) := by
  obtain ⟨hlow, hhigh⟩ := Decimal.toDigits_length_bounds hd
  have hlength : 0 < (Nat.toDigits 10 d.digits).length := Nat.length_toDigits_pos
  obtain ⟨l, hl⟩ := Nat.exists_eq_succ_of_ne_zero hlength.ne'
  rw [hl] at hlow hhigh ⊢
  have hlowq : (10 : ℚ) ^ l ≤ d.digits := by exact_mod_cast hlow
  have hhighq : (d.digits : ℚ) < 10 ^ l.succ := by exact_mod_cast hhigh
  have hleast : ((l.succ : Nat) : Int) + d.exponent - 1 = (l : Int) + d.exponent := by omega
  unfold Scaled.value
  rw [hleast, zpow_add₀ (by norm_num), zpow_add₀ (by norm_num), zpow_natCast, zpow_natCast]
  constructor
  · gcongr
  · gcongr

/-- A decimal below a power of ten has its point no farther behind. -/
theorem point_le {d : Scaled} (hd : 0 < d.digits) {k : Int} (h : d.value < 10 ^ k) :
    ((Nat.toDigits 10 d.digits).length : Int) + d.exponent ≤ k := by
  have hpowers := (value_between_powers hd).1.trans_lt h
  have hless := (zpow_lt_zpow_iff_right₀ (by norm_num)).mp hpowers
  omega

/-- A decimal that reaches a power of ten has its point behind it. -/
theorem lt_point {d : Scaled} (hd : 0 < d.digits) {k : Int} (h : 10 ^ k ≤ d.value) :
    k < ((Nat.toDigits 10 d.digits).length : Int) + d.exponent :=
  (zpow_lt_zpow_iff_right₀ (by norm_num)).mp (h.trans_lt (value_between_powers hd).2)

/-! ## What is laid out -/

theorem integerText_eq_toString (n : Int) : integerText n = toString n := by
  unfold integerText digitsText
  cases n with
  | ofNat n =>
      have hnonneg : ¬ Int.ofNat n < 0 := Int.not_lt.mpr (Int.natCast_nonneg n)
      rw [if_neg hnonneg, ← Nat.toString_eq_ofList_toDigits]
      rfl
  | negSucc n =>
      rw [if_pos (Int.negSucc_lt_zero n), ← Nat.toString_eq_ofList_toDigits]
      rfl

section

variable {text : List Char} {x : ℚ}

/-- A text that ends in a point and a zero lays out an integer. -/
theorem exists_decimal_whole {whole : List Char} (hwhole : IsNumeral whole)
    (hsize : ((Nat.ofDigitChars 10 whole 0 : Nat) : ℚ) < 10 ^ (16 : Int)) :
    ∃ d, IsReduced d ∧ d.value = (Nat.ofDigitChars 10 whole 0 : Nat) ∧
      (decimalText d).toList = whole ++ '.' :: ['0'] := by
  obtain ⟨c, r, rfl⟩ := List.exists_cons_of_ne_nil hwhole.ne_nil
  by_cases hc : c = '0'
  · rw [hwhole.lead (by rw [hc]; rfl)]
    exact ⟨⟨0, 0⟩, .inr rfl, by simp [Scaled.value, Nat.ofDigitChars_cons], by decide +kernel⟩
  · obtain ⟨hpos, hdigits⟩ := toDigits_ofDigitChars hwhole.all_digits hc
    generalize Nat.ofDigitChars 10 (c :: r) 0 = n at hpos hdigits hsize ⊢
    -- the zeros at the end of the integer are not digits of the decimal
    obtain ⟨j, n', hn', rfl⟩ := Nat.exists_eq_pow_mul_and_not_dvd hpos.ne' 10 (by decide)
    have hmod : n' % 10 ≠ 0 := fun hzero => hn' (Nat.dvd_of_mod_eq_zero hzero)
    have hvalue : Scaled.value ⟨n', j⟩ = ((10 ^ j * n' : Nat) : ℚ) := by
      unfold Scaled.value
      push_cast
      rw [zpow_natCast, mul_comm]
    have hzeros : Nat.toDigits 10 n' ++ List.replicate j '0' = Nat.toDigits 10 (10 ^ j * n') := by
      rw [toDigits_append_digits (by omega) fun c hc => isDigit_of_mem_zeros hc,
        Nat.ofDigitChars_replicate_zero]
    have hpoint := point_le (d := ⟨n', j⟩) (by change 0 < n'; omega) (hvalue ▸ hsize)
    refine ⟨⟨n', j⟩, .inl hmod, hvalue, ?_⟩
    rw [toList_decimalText_whole ⟨n', j⟩ (Int.natCast_nonneg j) hpoint, ← hdigits, ← hzeros]
    rfl

/-- A text whose point stands behind digits that are not zero lays out a decimal. -/
theorem exists_decimal_between {c : Char} {whole places : List Char}
    (hdigits : ∀ d ∈ c :: whole ++ places, isDigit d = true) (hc : c ≠ '0') (hplaces : places ≠ [])
    (hlast : places.getLast? ≠ some '0')
    (hx : ((Nat.ofDigitChars 10 (c :: whole ++ places) 0 : Nat) : ℚ) *
      10 ^ (0 - (places.length : Int)) = x) (hsize : x < 10 ^ (16 : Int)) :
    ∃ d, IsReduced d ∧ d.value = x ∧ (decimalText d).toList = c :: whole ++ '.' :: places := by
  have hboth : 0 < Nat.ofDigitChars 10 (c :: whole ++ places) 0 ∧
      Nat.toDigits 10 (Nat.ofDigitChars 10 (c :: whole ++ places) 0) = c :: whole ++ places :=
    toDigits_ofDigitChars hdigits hc
  obtain ⟨hpos, hall⟩ := hboth
  have hmod := mod_ne_zero_of_getLast? (c :: whole) hdigits hplaces hlast
  generalize Nat.ofDigitChars 10 (c :: whole ++ places) 0 = n at hpos hall hmod hx
  have hn : (((c :: whole).length : Nat) : Int) =
      (Nat.toDigits 10 n).length + (0 - (places.length : Int)) := by
    rw [hall, List.length_append]
    omega
  have hexponent : (0 - (places.length : Int)) < 0 := by
    have hlength := List.length_pos_iff.mpr hplaces
    omega
  have hpoint := point_le (d := ⟨n, 0 - (places.length : Int)⟩) hpos (lt_of_eq_of_lt hx hsize)
  change ((Nat.toDigits 10 n).length : Int) + (0 - (places.length : Int)) ≤ 16 at hpoint
  refine ⟨⟨n, 0 - (places.length : Int)⟩, .inl hmod, hx, ?_⟩
  rw [toList_decimalText_between ⟨n, 0 - (places.length : Int)⟩ (n := (c :: whole).length) hexponent hn
    (by simp) (by omega)]
  change (Nat.toDigits 10 n).take _ ++ '.' :: (Nat.toDigits 10 n).drop _ = _
  rw [hall, List.take_left, List.drop_left]

/-- A text whose point stands behind a single zero lays out a decimal. -/
theorem exists_decimal_small {places : List Char} (hdigits : ∀ d ∈ places, isDigit d = true)
    (hplaces : places ≠ []) (hlast : places.getLast? ≠ some '0')
    (hx : ((Nat.ofDigitChars 10 ('0' :: places) 0 : Nat) : ℚ) * 10 ^ (0 - (places.length : Int)) = x)
    (hsize : 10 ^ (-5 : Int) ≤ x) :
    ∃ d, IsReduced d ∧ d.value = x ∧ (decimalText d).toList = ['0'] ++ '.' :: places := by
  obtain ⟨j, c, r, rfl, hc⟩ := exists_zeros_append hplaces hlast
  have hall : ∀ d ∈ c :: r, isDigit d = true := fun d hd => hdigits d (List.mem_append_right _ hd)
  have hmod : Nat.ofDigitChars 10 (c :: r) 0 % 10 ≠ 0 := by
    refine mod_ne_zero_of_getLast? [] hall (List.cons_ne_nil c r) fun hzero => hlast ?_
    rw [List.getLast?_append, hzero]
    rfl
  obtain ⟨hpos, htoDigits⟩ := toDigits_ofDigitChars hall hc
  have hsame : Nat.ofDigitChars 10 ('0' :: (List.replicate j '0' ++ (c :: r))) 0 =
      Nat.ofDigitChars 10 (c :: r) 0 := by
    rw [Nat.ofDigitChars_cons, Nat.ofDigitChars_append, Nat.ofDigitChars_replicate_zero]
    simp
  rw [hsame] at hx
  generalize Nat.ofDigitChars 10 (c :: r) 0 = n at hpos htoDigits hmod hx
  generalize hexponent : 0 - ((List.replicate j '0' ++ (c :: r)).length : Int) = e at hx
  have hn : -(j : Int) = (Nat.toDigits 10 n).length + e := by
    rw [← hexponent, htoDigits, List.length_append, List.length_replicate]
    omega
  have hpoint := lt_point (d := ⟨n, e⟩) hpos (hsize.trans_eq hx.symm)
  change -5 < ((Nat.toDigits 10 n).length : Int) + e at hpoint
  refine ⟨⟨n, e⟩, .inl hmod, hx, ?_⟩
  rw [toList_decimalText_small ⟨n, e⟩ hn (by omega)]
  change ['0'] ++ '.' :: (List.replicate j '0' ++ Nat.toDigits 10 n) = _
  rw [htoDigits]

/-- A text with an exponent lays out a decimal. -/
theorem exists_decimal_raised {first : Char} {places : List Char} {k : Int}
    (hdigits : ∀ c ∈ first :: places, isDigit c = true) (hfirst : first ≠ '0')
    (hlast : places.getLast? ≠ some '0') (hk : k < -5 ∨ 16 ≤ k)
    (hx : ((Nat.ofDigitChars 10 (first :: places) 0 : Nat) : ℚ) * 10 ^ (k - (places.length : Int)) = x) :
    ∃ d, IsReduced d ∧ d.value = x ∧ (decimalText d).toList =
      first :: (if places.isEmpty then [] else '.' :: places) ++ 'e' :: (toString k).toList := by
  obtain ⟨hpos, htoDigits⟩ := toDigits_ofDigitChars hdigits hfirst
  have hmod : Nat.ofDigitChars 10 (first :: places) 0 % 10 ≠ 0 := by
    refine mod_ne_zero_of_getLast? [] hdigits (List.cons_ne_nil first places) ?_
    rw [List.getLast?_cons]
    intro hzero
    cases hplaces : places.getLast? with
    | none =>
        rw [hplaces] at hzero
        exact hfirst (Option.some.inj hzero)
    | some c =>
        rw [hplaces] at hzero hlast
        exact hlast hzero
  generalize Nat.ofDigitChars 10 (first :: places) 0 = n at hpos htoDigits hmod hx
  have hpoint : ((Nat.toDigits 10 n).length : Int) + (k - (places.length : Int)) - 1 = k := by
    rw [htoDigits, List.length_cons]
    omega
  refine ⟨⟨n, k - (places.length : Int)⟩, .inl hmod, hx, ?_⟩
  rw [toList_decimalText_raised ⟨n, k - (places.length : Int)⟩ htoDigits
    (by change ((Nat.toDigits 10 n).length : Int) + (k - (places.length : Int)) ≤ -5 ∨
          16 < ((Nat.toDigits 10 n).length : Int) + (k - (places.length : Int))
        omega)]
  change _ ++ 'e' :: (integerText (((Nat.toDigits 10 n).length : Int) +
    (k - (places.length : Int)) - 1)).toList = _
  rw [hpoint, integerText_eq_toString]

/-- What is laid out is a decimal as it is written. -/
theorem IsLayout.exists_decimal (h : IsLayout text x) :
    ∃ d, IsReduced d ∧ d.value = x ∧ (decimalText d).toList = text := by
  cases h with
  | @pointed whole places _ hwhole hplaces hdigits hlast hx hsize =>
      by_cases hzero : places = ['0']
      -- the zero behind the point is not a digit of the decimal
      · subst hzero
        have hinteger : x = (Nat.ofDigitChars 10 whole 0 : Nat) := by
          rw [← hx, Nat.ofDigitChars_append, Nat.ofDigitChars_cons, Nat.ofDigitChars_nil]
          simp
          field_simp
        subst hinteger
        refine exists_decimal_whole hwhole ?_
        rcases hsize with hnone | ⟨_, hless⟩
        · rw [hnone]
          positivity
        · exact hless
      · have hend : places.getLast? ≠ some '0' := fun h => hzero (hlast h)
        have hall : ∀ d ∈ whole ++ places, isDigit d = true := by
          intro d hd
          rcases List.mem_append.mp hd with hd | hd
          · exact hwhole.all_digits d hd
          · exact hdigits d hd
        have hpos : 0 < x := by
          have hmod := mod_ne_zero_of_getLast? whole hall hplaces hend
          have hnat : 0 < Nat.ofDigitChars 10 (whole ++ places) 0 := by omega
          rw [← hx]
          positivity
        have hsize := hsize.resolve_left hpos.ne'
        obtain ⟨c, r, rfl⟩ := List.exists_cons_of_ne_nil hwhole.ne_nil
        by_cases hc : c = '0'
        -- nor are a zero before the point and the zeros behind it
        · rw [hwhole.lead (by rw [hc]; rfl)] at hx ⊢
          exact exists_decimal_small hdigits hplaces hend hx hsize.1
        · exact exists_decimal_between hall hc hplaces hend hx hsize.2
  | raised hdigits hfirst hlast hk hx => exact exists_decimal_raised hdigits hfirst hlast hk hx

end

section

variable {d : Scaled}

/-- Where the point stands tells how great a decimal is. -/
theorem size_of_point (hd : 0 < d.digits)
    (hleast : -5 < ((Nat.toDigits 10 d.digits).length : Int) + d.exponent)
    (hgreatest : ((Nat.toDigits 10 d.digits).length : Int) + d.exponent ≤ 16) :
    10 ^ (-5 : Int) ≤ d.value ∧ d.value < 10 ^ (16 : Int) := by
  obtain ⟨hlow, hhigh⟩ := value_between_powers hd
  constructor
  · exact (zpow_le_zpow_right₀ (by norm_num) (by omega)).trans hlow
  · exact hhigh.trans_le (zpow_le_zpow_right₀ (by norm_num) hgreatest)

/-- A whole number below `10 ^ 16` is laid out with its zeros and a zero behind the point. -/
theorem isLayout_whole (hd : IsReduced d) (hexponent : 0 ≤ d.exponent)
    (hpoint : ((Nat.toDigits 10 d.digits).length : Int) + d.exponent ≤ 16) :
    IsLayout (decimalText d).toList d.value := by
  rw [toList_decimalText_whole d hexponent hpoint]
  by_cases hzero : d = ⟨0, 0⟩
  · subst hzero
    exact .pointed (isNumeral_toDigits 0) (by decide) (by decide) (by decide)
      (value_whole ⟨0, 0⟩ hexponent) (.inl (by simp [Scaled.value]))
  · have hpos := hd.digits_pos hzero
    have hwhole : IsNumeral (Nat.toDigits 10 d.digits ++ List.replicate d.exponent.toNat '0') := by
      rw [toDigits_append_digits hpos fun c hc => isDigit_of_mem_zeros hc]
      exact isNumeral_toDigits _
    have hlength : 0 < (Nat.toDigits 10 d.digits).length := Nat.length_toDigits_pos
    exact .pointed hwhole (by decide) (by decide) (by decide) (value_whole d hexponent)
      (.inr (size_of_point hpos (by omega) hpoint))

/-- Digits on both sides of the point are laid out around it. -/
theorem isLayout_between (hd : d.digits % 10 ≠ 0) {n : Nat} (hexponent : d.exponent < 0)
    (hn : (n : Int) = (Nat.toDigits 10 d.digits).length + d.exponent) (hpos : 0 < n)
    (hpoint : n ≤ 16) : IsLayout (decimalText d).toList d.value := by
  have hdigits : 0 < d.digits := by omega
  have hplaces : (Nat.toDigits 10 d.digits).drop n ≠ [] := by
    rw [ne_eq, List.drop_eq_nil_iff]
    omega
  have hlast : ((Nat.toDigits 10 d.digits).drop n).getLast? ≠ some '0' := by
    rw [List.getLast?_drop, if_neg (by omega)]
    exact getLast?_toDigits hd
  have hwhole : IsNumeral ((Nat.toDigits 10 d.digits).take n) := by
    refine ⟨?_, fun c hc => isDigit_of_mem_toDigits (List.mem_of_mem_take hc), fun hlead => ?_⟩
    · rw [ne_eq, List.take_eq_nil_iff, not_or]
      exact ⟨hpos.ne', Nat.toDigits_ne_nil⟩
    · rw [List.head?_take, if_neg hpos.ne'] at hlead
      exact absurd hlead (head?_toDigits hdigits)
  rw [toList_decimalText_between d hexponent hn hpos hpoint]
  exact .pointed hwhole hplaces (fun c hc => isDigit_of_mem_toDigits (List.mem_of_mem_drop hc))
    (fun hzero => absurd hzero hlast) (value_between d hn hexponent)
    (.inr (size_of_point hdigits (by omega) (by omega)))

/-- A fraction that is not too small is laid out with zeros in front. -/
theorem isLayout_small (hd : d.digits % 10 ≠ 0) {n : Nat}
    (hn : -(n : Int) = (Nat.toDigits 10 d.digits).length + d.exponent) (hpoint : n < 5) :
    IsLayout (decimalText d).toList d.value := by
  have hlast : (List.replicate n '0' ++ Nat.toDigits 10 d.digits).getLast? ≠ some '0' := by
    obtain ⟨c, hc⟩ := Option.ne_none_iff_exists'.mp
      (mt List.getLast?_eq_none_iff.mp (Nat.toDigits_ne_nil (b := 10) (n := d.digits)))
    have hne := getLast?_toDigits hd
    rw [List.getLast?_append, hc, Option.some_or]
    rwa [hc] at hne
  rw [toList_decimalText_small d hn hpoint]
  refine .pointed (isNumeral_toDigits 0) ?_ ?_ (fun hzero => absurd hzero hlast) (value_small d hn)
    (.inr (size_of_point (by omega) (by omega) (by omega)))
  · exact List.append_ne_nil_of_right_ne_nil _ Nat.toDigits_ne_nil
  · intro c hc
    rcases List.mem_append.mp hc with hc | hc
    · exact isDigit_of_mem_zeros hc
    · exact isDigit_of_mem_toDigits hc

/-- Everything smaller or larger is laid out with an exponent. -/
theorem isLayout_raised (hd : d.digits % 10 ≠ 0)
    (hpoint : (Nat.toDigits 10 d.digits).length + d.exponent ≤ -5 ∨
      16 < (Nat.toDigits 10 d.digits).length + d.exponent) :
    IsLayout (decimalText d).toList d.value := by
  obtain ⟨first, places, hcons⟩ := List.exists_cons_of_ne_nil
    (Nat.toDigits_ne_nil (b := 10) (n := d.digits))
  have hfirst : first ≠ '0' := by
    have hhead := head?_toDigits (n := d.digits) (by omega)
    rw [hcons] at hhead
    exact fun heq => hhead (congrArg some heq)
  have hlast : places.getLast? ≠ some '0' := by
    have hend := getLast?_toDigits hd
    rw [hcons, List.getLast?_cons] at hend
    intro hzero
    rw [hzero] at hend
    exact hend rfl
  rw [toList_decimalText_raised d hcons hpoint, integerText_eq_toString]
  refine .raised ?_ hfirst hlast (by omega) (value_raised d hcons rfl)
  rw [← hcons]
  exact fun c hc => isDigit_of_mem_toDigits hc

/-- What is written of a decimal is laid out as decimals are. -/
theorem isLayout_decimalText (hd : IsReduced d) : IsLayout (decimalText d).toList d.value := by
  have hlength : 0 < (Nat.toDigits 10 d.digits).length := Nat.length_toDigits_pos
  -- zero is written with the point behind it
  have hmod : ¬ (0 ≤ d.exponent ∧ ((Nat.toDigits 10 d.digits).length : Int) + d.exponent ≤ 16) →
      d.digits % 10 ≠ 0 := by
    intro hnot
    refine hd.resolve_right fun hzero => hnot ?_
    rw [hzero]
    exact ⟨le_refl 0, by decide⟩
  rcases decimalText_cases d with ⟨hexponent, hpoint⟩ | ⟨n, hexponent, hn, hpos, hpoint⟩ |
    ⟨n, hn, hpoint⟩ | hpoint
  · exact isLayout_whole hd hexponent hpoint
  · exact isLayout_between (hmod (by omega)) hexponent hn hpos hpoint
  · exact isLayout_small (hmod (by omega)) hn hpoint
  · exact isLayout_raised (hmod (by omega)) hpoint

end

end Number

namespace Value

/-! ## What is written -/

/-- The text of a number is its spelling. -/
theorem isSpelling_text {n : Number} (hn : n.IsKept) : IsSpelling n.text.toList := by
  cases n with
  | integer n =>
      have hbounds : -2 ^ 63 ≤ n ∧ n < 2 ^ 64 := by
        change Number.fit n = .fits at hn
        unfold Number.fit at hn
        split at hn
        · rename_i hfits
          rw [Bool.and_eq_true, decide_eq_true_eq, decide_eq_true_eq] at hfits
          exact hfits
        · split at hn <;> cases hn
      change IsSpelling (Number.integerText n).toList
      rw [Number.integerText_eq_toString]
      exact .integer hbounds.1 hbounds.2
  | fraction x =>
      cases x with
      | nan => exact .nan
      | infinity negative =>
          cases negative with
          | true => exact .minusInfinity
          | false => exact .infinity
      | finite negative m q =>
          have hlayout := Number.isLayout_decimalText (Number.isReduced_shortest hn)
          change IsSpelling (Number.fractionText (.finite negative m q)).toList
          rw [Number.toList_fractionText]
          exact .fraction hn (Decimal.isShortest_shortest hn) hlayout

/-- The text of a truth value or a number is its spelling. -/
theorem IsScalar.isSpelling {v : Value} (hv : v.IsScalar) (htyped : v.IsTyped) :
    ∃ written, v.scalarText? = some written ∧ IsSpelling written.toList ∧
      ofPlain written.toList = .ok v := by
  cases htyped with
  | bool b => exact ⟨toString b, by cases b <;> rfl, .bool b, by cases b <;> rfl⟩
  | number n =>
      cases hv with
      | number hn =>
          refine ⟨n.text, rfl, isSpelling_text hn, ?_⟩
          unfold ofPlain
          rw [Number.spelled?_text hn]
          rfl

/-- A spelling that is written is what is written of the value that it spells. -/
theorem IsSpelling.scalarText?_eq {text : List Char} (h : IsSpelling text) :
    ∃ v, ofPlain text = .ok v ∧ v.scalarText? = some (String.ofList text) := by
  have hnumber : ∀ {n : Number}, n.IsKept → n.text.toList = text →
      ∃ v, ofPlain text = .ok v ∧ v.scalarText? = some (String.ofList text) := by
    rintro n hn rfl
    refine ⟨.number n, ?_, by rw [String.ofList_toList]; rfl⟩
    unfold ofPlain
    rw [Number.spelled?_text hn]
    rfl
  cases h with
  | bool b =>
      refine ⟨.bool b, by cases b <;> rfl, ?_⟩
      rw [String.ofList_toList]
      cases b <;> rfl
  | @integer n hleast hgreatest =>
      refine hnumber (n := .integer n) ?_ (by rw [← Number.integerText_eq_toString]; rfl)
      change Number.fit n = .fits
      unfold Number.fit
      rw [if_pos]
      rw [Bool.and_eq_true, decide_eq_true_eq, decide_eq_true_eq]
      exact ⟨hleast, hgreatest⟩
  | infinity => exact hnumber (n := .fraction (.infinity false)) trivial rfl
  | minusInfinity => exact hnumber (n := .fraction (.infinity true)) trivial rfl
  | nan => exact hnumber (n := .fraction .nan) trivial rfl
  | @fraction negative m q body x hc hx hbody =>
      -- a layout tells its decimal, and there is one shortest decimal
      obtain ⟨d, hd, rfl, rfl⟩ := hbody.exists_decimal
      have hvalue := hx.unique (Decimal.isShortest_shortest hc)
      have hsame := hd.eq_of_value_eq (Number.isReduced_shortest hc) hvalue
      refine hnumber (n := .fraction (.finite negative m q)) hc ?_
      change (Number.fractionText (.finite negative m q)).toList = _
      rw [Number.toList_fractionText, hsame]

/-- What is written of a truth value or number is the spelling of the same value. -/
theorem exists_isWritten {text : List Char} {v : Value} (h : ofPlain text = .ok v)
    (hv : v.IsTyped) : ∃ written, v.scalarText? = some written ∧ IsWritten text written := by
  obtain ⟨written, hwritten, hspelling, hplain⟩ := (isScalar_of_ofPlain h).isSpelling hv
  refine ⟨written, hwritten, hspelling, hplain.trans h.symm, ?_, fun hkept => ?_⟩
  · intro heq
    rwa [heq, String.toList_ofList] at hspelling
  · obtain ⟨w, hw, htext⟩ := hkept.scalarText?_eq
    have hsame : w = v := Except.ok.inj (hw.symm.trans h)
    rw [hsame, hwritten] at htext
    exact Option.some.inj htext

end Value

end OperatorBundle.Yaml
