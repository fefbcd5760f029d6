import OperatorBundle.Proofs.Decimal.Rounding
import OperatorBundle.Yaml.Value.Scalar
import Mathlib.Data.List.TakeWhile

/-!
# Numbers are read as they were written

The text of a number is spelled like a number, and like that number.  `Number.IsKept` says which
numbers there are in documents.
-/

namespace OperatorBundle.Yaml

open Decimal (Binary64 Scaled)

namespace Number

/-- Is this a number as documents hold them? -/
def IsKept : Number → Prop
  | integer n => fit n = .fits
  | fraction x => x.IsCanonical

/-! ## Digits -/

/-- Digits are the decimal digits. -/
theorem isDigit_iff {c : Char} : isDigit c = true ↔ c.isDigit = true := by
  unfold isDigit Char.isDigit
  rw [Bool.and_eq_true, Bool.and_eq_true, decide_eq_true_eq, decide_eq_true_eq, decide_eq_true_eq,
    decide_eq_true_eq]
  exact Iff.rfl

theorem isDigit_of_mem_toDigits {n : Nat} {c : Char} (h : c ∈ Nat.toDigits 10 n) :
    isDigit c = true :=
  isDigit_iff.mpr (Nat.isDigit_of_mem_toDigits (by decide) (by decide) h)

/-- A decimal digit is a hexadecimal one of the same value. -/
theorem hexDigit?_of_isDigit {c : Char} (h : isDigit c = true) :
    hexDigit? c = some (c.toNat - '0'.toNat) := by
  unfold hexDigit?
  rw [h]
  rfl

/-- A digit is less than ten. -/
theorem sub_lt_ten_of_isDigit {c : Char} (h : isDigit c = true) : c.toNat - '0'.toNat < 10 := by
  unfold isDigit at h
  rw [Bool.and_eq_true, decide_eq_true_eq, decide_eq_true_eq] at h
  have hhigh : c.toNat ≤ '9'.toNat := h.2
  have hnine : '9'.toNat = 57 := rfl
  have hzero : '0'.toNat = 48 := rfl
  omega

/-- Digits write the number that their places give. -/
theorem digits?_of_isDigit {text : List Char} (hne : text ≠ [])
    (h : ∀ c ∈ text, isDigit c = true) : digits? 10 text = some (Nat.ofDigitChars 10 text 0) := by
  -- the places count for any number read before
  have hfold : ∀ n, text.foldlM (fun n c => do
      let d ← hexDigit? c
      if d < 10 then some (10 * n + d) else none) n = some (Nat.ofDigitChars 10 text n) := by
    clear hne
    induction text with
    | nil =>
        intro n
        rfl
    | cons c text ih =>
        intro n
        have hc := h c List.mem_cons_self
        rw [List.foldlM_cons, hexDigit?_of_isDigit hc]
        simp only [Option.bind_eq_bind, Option.bind_some, sub_lt_ten_of_isDigit hc, if_true]
        rw [Nat.ofDigitChars_cons]
        exact ih (fun d hd => h d (List.mem_cons_of_mem c hd)) _
  have hempty : text.isEmpty = false := List.isEmpty_eq_false_iff.mpr hne
  unfold digits?
  rw [hempty]
  exact hfold 0

/-- A text with something else than digits writes no number. -/
theorem digits?_eq_none {base : Nat} {text : List Char} {c : Char} (hmem : c ∈ text)
    (hc : ∀ d, hexDigit? c = some d → ¬ d < base) : digits? base text = none := by
  have hfold : ∀ n, text.foldlM (fun n c => do
      let d ← hexDigit? c
      if d < base then some (base * n + d) else none) n = none := by
    induction text with
    | nil => exact absurd hmem List.not_mem_nil
    | cons a text ih =>
        intro n
        rw [List.foldlM_cons]
        rcases List.mem_cons.mp hmem with rfl | hmem
        · cases hd : hexDigit? c with
          | none => rfl
          | some d =>
              simp only [Option.bind_eq_bind, Option.bind_some, hc d hd, if_false]
              rfl
        · cases hexDigit? a with
          | none => rfl
          | some d =>
              simp only [Option.bind_eq_bind, Option.bind_some]
              split
              · exact ih hmem _
              · rfl
  unfold digits?
  split
  · rfl
  · exact hfold 0

/-! ## The characters of numbers -/

/-- A digit, a point, a minus sign or the mark of an exponent: what the text of a number that is no
word is made of. -/
def isNumberChar (c : Char) : Bool := isDigit c || c == '.' || c == '-' || c == 'e'

/-- Digits are characters of numbers. -/
theorem isNumberChar_of_isDigit {c : Char} (h : isDigit c = true) : isNumberChar c = true := by
  simp [isNumberChar, h]

/-- No mark of another base stands in front of a text of such characters. -/
theorem marked_eq_none {text : List Char} (h : ∀ c ∈ text, isNumberChar c = true) :
    (bases.findSome? fun (mark, base) => behind? mark text >>= digits? base) = none := by
  have hbehind : ∀ d, isNumberChar d = false → behind? ['0', d] text = none := by
    intro d hd
    unfold behind?
    split
    · rename_i hstart
      rcases List.isPrefixOf_iff_prefix.mp hstart with ⟨r, hr⟩
      have hmem : d ∈ text := by
        rw [← hr]
        simp
      rw [h d hmem] at hd
      cases hd
    · rfl
  simp only [bases, List.findSome?_cons, List.findSome?_nil, hbehind 'x' (by decide),
    hbehind 'o' (by decide), hbehind 'b' (by decide), Option.bind_eq_bind, Option.bind_none]

/-- A text with a point or an exponent writes no integer. -/
theorem magnitude?_eq_none {text : List Char} (h : ∀ c ∈ text, isNumberChar c = true) {c : Char}
    (hmem : c ∈ text) (hc : isDigit c = false) : magnitude? text = none := by
  have hdigits : digits? 10 text = none := by
    refine digits?_eq_none hmem fun d hd hlt => ?_
    have hchar := h c hmem
    simp only [isNumberChar, hc, Bool.false_or, Bool.or_eq_true, beq_iff_eq] at hchar
    rcases hchar with (rfl | rfl) | rfl
    · cases hd
    · cases hd
    -- an `e` is a digit, but not of base ten
    · have hten : d = 14 := (Option.some.inj hd).symm
      omega
  unfold magnitude?
  rw [marked_eq_none h, hdigits]
  rfl

/-- Only digits can have a zero in front that does not belong there. -/
theorem hasLeadingZero_eq_false {text : List Char} {c : Char} (hmem : c ∈ unsigned text)
    (hc : isDigit c = false) : hasLeadingZero text = false := by
  unfold hasLeadingZero
  split
  · rename_i d r hsplit
    rw [hsplit] at hmem
    rcases List.mem_cons.mp hmem with rfl | hmem
    · cases hc
    rcases List.mem_cons.mp hmem with rfl | hmem
    · rw [hc, Bool.false_and]
    · rw [Bool.and_eq_false_iff]
      right
      refine Bool.eq_false_iff.mpr fun hall => ?_
      rw [List.all_eq_true.mp hall c hmem] at hc
      cases hc
  · rfl

/-! ## Integers -/

/-- Digits of a positive number do not begin with zero. -/
theorem head?_toDigits {n : Nat} (hn : 0 < n) : (Nat.toDigits 10 n).head? ≠ some '0' := by
  induction n using Nat.strongRecOn with
  | ind n ih =>
      by_cases hsmall : n < 10
      · rw [Nat.toDigits_of_lt_base hsmall]
        intro h
        have hchar : n.digitChar = '0' := Option.some.inj h
        have hzero := congrArg Char.toNat hchar
        rw [Nat.toNat_digitChar_of_lt_ten hsmall] at hzero
        have hfortyeight : '0'.toNat = 48 := rfl
        omega
      · rw [Nat.toDigits_of_base_le (by omega) (by omega), List.head?_append_of_ne_nil _
          Nat.toDigits_ne_nil]
        -- the first digit is that of the number without its last one
        exact ih (n / 10) (by omega) (by omega)

/-- Decimal digits begin with a digit. -/
theorem toDigits_ne_cons {n : Nat} {c : Char} (hc : isDigit c = false) (r : List Char) :
    Nat.toDigits 10 n ≠ c :: r := by
  intro h
  have hmem : c ∈ Nat.toDigits 10 n := h ▸ List.mem_cons_self
  rw [isDigit_of_mem_toDigits hmem] at hc
  cases hc

/-- A digit is no sign. -/
theorem unsigned_of_isDigit {c : Char} (hc : isDigit c = true) (r : List Char) :
    unsigned (c :: r) = c :: r := by
  unfold unsigned
  split
  · rename_i h
    cases h
    cases hc
  · rename_i h
    cases h
    cases hc
  · rfl

/-- Digits have no sign. -/
theorem unsigned_toDigits (n : Nat) : unsigned (Nat.toDigits 10 n) = Nat.toDigits 10 n := by
  obtain ⟨c, r, hdigits⟩ := List.exists_cons_of_ne_nil (Nat.toDigits_ne_nil (b := 10) (n := n))
  rw [hdigits]
  exact unsigned_of_isDigit (isDigit_of_mem_toDigits (hdigits ▸ List.mem_cons_self)) r

/-- A text that begins with a digit is an integer in base ten or none. -/
theorem anyInteger?_of_isDigit {c : Char} (hc : isDigit c = true) {r : List Char}
    (hzero : hasLeadingZero (c :: r) = false) :
    anyInteger? (c :: r) = (magnitude? (c :: r)).map Int.ofNat := by
  unfold anyInteger?
  rw [hzero, if_neg Bool.false_ne_true]
  split
  · rename_i h
    cases h
    cases hc
  · rename_i h
    cases h
    cases hc
  · rfl

/-- The digits of a number have no zero in front that does not belong there. -/
theorem not_leadingZero_toDigits (n : Nat) {d : Char} {r : List Char} :
    Nat.toDigits 10 n ≠ '0' :: d :: r := by
  intro h
  rcases Nat.eq_zero_or_pos n with rfl | hn
  · rw [Nat.toDigits_zero] at h
    cases h
  · exact head?_toDigits hn (by rw [h]; rfl)

/-- The digits of a number are read as this number. -/
theorem magnitude?_toDigits (n : Nat) : magnitude? (Nat.toDigits 10 n) = some n := by
  have hchars : ∀ c ∈ Nat.toDigits 10 n, isNumberChar c = true :=
    fun c hc => isNumberChar_of_isDigit (isDigit_of_mem_toDigits hc)
  unfold magnitude?
  rw [marked_eq_none hchars, digits?_of_isDigit Nat.toDigits_ne_nil
    fun c hc => isDigit_of_mem_toDigits hc, Nat.ofDigitChars_ten_toDigits]
  rfl

/-- The digits of a number have no leading zero. -/
theorem hasLeadingZero_of_unsigned {text : List Char} {n : Nat}
    (h : unsigned text = Nat.toDigits 10 n) : hasLeadingZero text = false := by
  unfold hasLeadingZero
  rw [h]
  split
  · rename_i d r hsplit
    exact absurd hsplit (not_leadingZero_toDigits n)
  · rfl

/-- An integer is written with a minus if it is negative, and with its digits. -/
theorem toList_integerText (n : Int) :
    (integerText n).toList = (if n < 0 then ['-'] else []) ++ Nat.toDigits 10 n.natAbs := by
  unfold integerText digitsText
  split
  · simp
  · simp

/-- The text of an integer writes that integer. -/
theorem anyInteger?_integerText (n : Int) : anyInteger? (integerText n).toList = some n := by
  rw [toList_integerText]
  by_cases hn : n < 0
  · have hzero : hasLeadingZero ('-' :: Nat.toDigits 10 n.natAbs) = false :=
      hasLeadingZero_of_unsigned rfl
    rw [if_pos hn, List.singleton_append, anyInteger?, hzero, if_neg (by decide)]
    simp only [magnitude?_toDigits, Option.map_some]
    have hneg : -(n.natAbs : Int) = n := by omega
    exact congrArg some hneg
  · have hzero : hasLeadingZero (Nat.toDigits 10 n.natAbs) = false :=
      hasLeadingZero_of_unsigned (unsigned_toDigits _)
    have hmagnitude := magnitude?_toDigits n.natAbs
    obtain ⟨c, r, hdigits⟩ :=
      List.exists_cons_of_ne_nil (Nat.toDigits_ne_nil (b := 10) (n := n.natAbs))
    have hc : isDigit c = true := isDigit_of_mem_toDigits (hdigits ▸ List.mem_cons_self)
    rw [if_neg hn, List.nil_append]
    rw [hdigits] at hzero hmagnitude ⊢
    rw [anyInteger?_of_isDigit hc hzero, hmagnitude, Option.map_some]
    exact congrArg some (Int.natAbs_of_nonneg (by omega))

/-- An integer is written with characters of numbers. -/
theorem isNumberChar_of_mem_integerText {n : Int} {c : Char} (h : c ∈ (integerText n).toList) :
    isNumberChar c = true := by
  rw [toList_integerText] at h
  rcases List.mem_append.mp h with h | h
  · split at h
    · rw [List.mem_singleton.mp h]
      rfl
    · exact absurd h List.not_mem_nil
  · exact isNumberChar_of_isDigit (isDigit_of_mem_toDigits h)

/-! ## Fractions -/

/-- Digits with zeros behind them and a smaller exponent have the same value. -/
theorem value_eq {D e : Nat} {E : Int} {d : Scaled} (hD : D = 10 ^ e * d.digits)
    (hE : E = d.exponent - e) : ((D : Nat) : ℚ) * 10 ^ E = d.value := by
  unfold Scaled.value
  rw [hD, hE, zpow_sub₀ (by norm_num), zpow_natCast]
  push_cast
  field_simp

/-- Digits around a point that are worth a decimal. -/
def IsPointed (text : List Char) (d : Scaled) : Prop :=
  ∃ whole places, text = whole ++ '.' :: places ∧ whole ≠ [] ∧
    (∀ c ∈ whole ++ places, isDigit c = true) ∧
    ((Nat.ofDigitChars 10 (whole ++ places) 0 : Nat) : ℚ) * 10 ^ (0 - (places.length : Int)) =
      d.value

/-- A digit, further ones behind a point if there are any, and an exponent, all worth a decimal. -/
def IsRaised (text : List Char) (d : Scaled) : Prop :=
  ∃ first places k,
    text = first :: (if places.isEmpty then [] else '.' :: places) ++ 'e' :: (integerText k).toList ∧
    (∀ c ∈ first :: places, isDigit c = true) ∧
    ((Nat.ofDigitChars 10 (first :: places) 0 : Nat) : ℚ) * 10 ^ (k - (places.length : Int)) =
      d.value

theorem isDigit_of_mem_zeros {n : Nat} {c : Char} (h : c ∈ List.replicate n '0') :
    isDigit c = true := by
  rw [(List.mem_replicate.mp h).2]
  rfl

section

variable (d : Scaled)

/-- The digits with zeros before the point are worth the decimal. -/
theorem value_whole (hexponent : 0 ≤ d.exponent) :
    ((Nat.ofDigitChars 10 (Nat.toDigits 10 d.digits ++ List.replicate d.exponent.toNat '0' ++ ['0'])
      0 : Nat) : ℚ) * 10 ^ (0 - (['0'].length : Int)) = d.value := by
  refine value_eq (e := d.exponent.toNat + 1) ?_ ?_
  · rw [Nat.ofDigitChars_append, Nat.ofDigitChars_append, Nat.ofDigitChars_ten_toDigits,
      Nat.ofDigitChars_replicate_zero, Nat.pow_succ]
    simp [Nat.ofDigitChars_cons]
    ring
  · simp only [List.length_singleton]
    omega

/-- The digits with the point between them are worth the decimal. -/
theorem value_between {n : Nat} (hn : (n : Int) = (Nat.toDigits 10 d.digits).length + d.exponent)
    (hexponent : d.exponent < 0) :
    ((Nat.ofDigitChars 10 ((Nat.toDigits 10 d.digits).take n ++ (Nat.toDigits 10 d.digits).drop n)
      0 : Nat) : ℚ) * 10 ^ (0 - (((Nat.toDigits 10 d.digits).drop n).length : Int)) = d.value := by
  have hplaces : (((Nat.toDigits 10 d.digits).drop n).length : Int) = -d.exponent := by
    rw [List.length_drop]
    omega
  rw [List.take_append_drop, Nat.ofDigitChars_ten_toDigits]
  refine value_eq (e := 0) (by omega) ?_
  rw [hplaces]
  omega

/-- The digits with zeros behind the point are worth the decimal. -/
theorem value_small {n : Nat} (hn : -(n : Int) = (Nat.toDigits 10 d.digits).length + d.exponent) :
    ((Nat.ofDigitChars 10 (['0'] ++ (List.replicate n '0' ++ Nat.toDigits 10 d.digits)) 0 : Nat) : ℚ) *
      10 ^ (0 - ((List.replicate n '0' ++ Nat.toDigits 10 d.digits).length : Int)) = d.value := by
  refine value_eq (e := 0) ?_ ?_
  · rw [Nat.ofDigitChars_append, Nat.ofDigitChars_append, Nat.ofDigitChars_cons,
      Nat.ofDigitChars_nil, Nat.ofDigitChars_replicate_zero]
    simp
  · rw [List.length_append, List.length_replicate]
    omega

/-- The digits with an exponent that counts from the first are worth the decimal. -/
theorem value_raised {first : Char} {places : List Char} {k : Int}
    (hdigits : Nat.toDigits 10 d.digits = first :: places)
    (hk : k = (Nat.toDigits 10 d.digits).length + d.exponent - 1) :
    ((Nat.ofDigitChars 10 (first :: places) 0 : Nat) : ℚ) * 10 ^ (k - (places.length : Int)) =
      d.value := by
  rw [← hdigits, Nat.ofDigitChars_ten_toDigits]
  refine value_eq (e := 0) (by omega) ?_
  rw [hk, hdigits, List.length_cons]
  omega

/-! The four ways in which a decimal is laid out, by where the point stands. -/

/-- A number without places is written with a point and a zero. -/
theorem toList_decimalText_whole (hexponent : 0 ≤ d.exponent)
    (hpoint : (Nat.toDigits 10 d.digits).length + d.exponent ≤ 16) :
    (decimalText d).toList =
      Nat.toDigits 10 d.digits ++ List.replicate d.exponent.toNat '0' ++ '.' :: ['0'] := by
  have hwhole : (decide (0 ≤ d.exponent) &&
      decide ((Nat.toDigits 10 d.digits).length + d.exponent ≤ 16)) = true := by
    rw [decide_eq_true hexponent, decide_eq_true hpoint]
    rfl
  unfold decimalText
  simp only
  rw [if_pos hwhole]
  simp [zeros]

/-- A number with a point among its digits is written so. -/
theorem toList_decimalText_between {n : Nat} (hexponent : d.exponent < 0)
    (hn : (n : Int) = (Nat.toDigits 10 d.digits).length + d.exponent) (hpos : 0 < n)
    (hpoint : n ≤ 16) :
    (decimalText d).toList =
      (Nat.toDigits 10 d.digits).take n ++ '.' :: (Nat.toDigits 10 d.digits).drop n := by
  have hfirst : 0 < (Nat.toDigits 10 d.digits).length + d.exponent := by omega
  have hlast : (Nat.toDigits 10 d.digits).length + d.exponent ≤ 16 := by omega
  unfold decimalText
  simp only
  rw [decide_eq_false (by omega : ¬ 0 ≤ d.exponent), Bool.false_and, if_neg Bool.false_ne_true,
    decide_eq_true hfirst, decide_eq_true hlast, Bool.and_self, if_pos rfl, ← hn]
  simp

/-- A small number is written with zeros behind the point. -/
theorem toList_decimalText_small {n : Nat}
    (hn : -(n : Int) = (Nat.toDigits 10 d.digits).length + d.exponent) (hpoint : n < 5) :
    (decimalText d).toList =
      ['0'] ++ '.' :: (List.replicate n '0' ++ Nat.toDigits 10 d.digits) := by
  have hlength : 0 < (Nat.toDigits 10 d.digits).length := Nat.length_toDigits_pos
  have hfirst : -5 < (Nat.toDigits 10 d.digits).length + d.exponent := by omega
  have hlast : (Nat.toDigits 10 d.digits).length + d.exponent ≤ 0 := by omega
  have hcount : -((Nat.toDigits 10 d.digits).length + d.exponent) = (n : Int) := by omega
  unfold decimalText
  simp only
  rw [decide_eq_false (by omega : ¬ 0 ≤ d.exponent), Bool.false_and, if_neg Bool.false_ne_true,
    decide_eq_false (not_lt.mpr hlast), Bool.false_and, if_neg Bool.false_ne_true,
    decide_eq_true hfirst, decide_eq_true hlast, Bool.and_self, if_pos rfl, hcount]
  simp [zeros]

/-- A very large or small number is written with an exponent. -/
theorem toList_decimalText_raised {first : Char} {places : List Char}
    (hdigits : Nat.toDigits 10 d.digits = first :: places)
    (hpoint : (Nat.toDigits 10 d.digits).length + d.exponent ≤ -5 ∨
      16 < (Nat.toDigits 10 d.digits).length + d.exponent) :
    (decimalText d).toList = first :: (if places.isEmpty then [] else '.' :: places) ++
      'e' :: (integerText ((Nat.toDigits 10 d.digits).length + d.exponent - 1)).toList := by
  have hlength : 0 < (Nat.toDigits 10 d.digits).length := Nat.length_toDigits_pos
  have hwhole : ¬ (decide (0 ≤ d.exponent) &&
      decide ((Nat.toDigits 10 d.digits).length + d.exponent ≤ 16)) = true := by
    rw [Bool.and_eq_true, decide_eq_true_eq, decide_eq_true_eq]
    omega
  have hbetween : ¬ (decide (0 < (Nat.toDigits 10 d.digits).length + d.exponent) &&
      decide ((Nat.toDigits 10 d.digits).length + d.exponent ≤ 16)) = true := by
    rw [Bool.and_eq_true, decide_eq_true_eq, decide_eq_true_eq]
    omega
  have hsmall : ¬ (decide (-5 < (Nat.toDigits 10 d.digits).length + d.exponent) &&
      decide ((Nat.toDigits 10 d.digits).length + d.exponent ≤ 0)) = true := by
    rw [Bool.and_eq_true, decide_eq_true_eq, decide_eq_true_eq]
    omega
  unfold decimalText
  simp only
  rw [if_neg hwhole, if_neg hbetween, if_neg hsmall, hdigits]
  cases places with
  | nil => simp
  | cons second places => simp

/-- The point stands behind all digits, between them or before them, or there is an exponent. -/
theorem decimalText_cases :
    (0 ≤ d.exponent ∧ (Nat.toDigits 10 d.digits).length + d.exponent ≤ 16) ∨
      (∃ n : Nat, d.exponent < 0 ∧ (n : Int) = (Nat.toDigits 10 d.digits).length + d.exponent ∧
        0 < n ∧ n ≤ 16) ∨
      (∃ n : Nat, -(n : Int) = (Nat.toDigits 10 d.digits).length + d.exponent ∧ n < 5) ∨
      ((Nat.toDigits 10 d.digits).length + d.exponent ≤ -5 ∨
        16 < (Nat.toDigits 10 d.digits).length + d.exponent) := by
  have hlength : 0 < (Nat.toDigits 10 d.digits).length := Nat.length_toDigits_pos
  generalize hpoint : ((Nat.toDigits 10 d.digits).length : Int) + d.exponent = point
  rcases lt_or_ge 16 point with hgreat | hpoint16
  · exact .inr (.inr (.inr (.inr hgreat)))
  rcases le_or_gt point (-5) with hsmall | hpoint5
  · exact .inr (.inr (.inr (.inl hsmall)))
  rcases le_or_gt 0 d.exponent with hwhole | hexponent
  · exact .inl ⟨hwhole, hpoint16⟩
  rcases le_or_gt point 0 with hbefore | hbetween
  · exact .inr (.inr (.inl ⟨(-point).toNat, by omega, by omega⟩))
  · exact .inr (.inl ⟨point.toNat, hexponent, by omega, by omega, by omega⟩)

/-- A decimal is written with a point between digits, or with an exponent behind a digit and further
ones.  Either way the digits and their places give its value. -/
theorem toList_decimalText :
    IsPointed (decimalText d).toList d ∨ IsRaised (decimalText d).toList d := by
  have hdigits : ∀ c ∈ Nat.toDigits 10 d.digits, isDigit c = true :=
    fun c hc => isDigit_of_mem_toDigits hc
  have hlength : 0 < (Nat.toDigits 10 d.digits).length := Nat.length_toDigits_pos
  rcases decimalText_cases d with ⟨hexponent, hpoint⟩ | ⟨n, hexponent, hn, hpos, hpoint⟩ |
    ⟨n, hn, hpoint⟩ | hpoint
  · left
    rw [toList_decimalText_whole d hexponent hpoint]
    refine ⟨_, ['0'], rfl, by simp, ?_, value_whole d hexponent⟩
    exact List.forall_mem_append.mpr
      ⟨List.forall_mem_append.mpr ⟨hdigits, fun c => isDigit_of_mem_zeros⟩,
        fun c hc => isDigit_of_mem_zeros (n := 1) hc⟩
  · left
    rw [toList_decimalText_between d hexponent hn hpos hpoint]
    refine ⟨_, _, rfl, ?_, ?_, value_between d hn hexponent⟩
    · rw [ne_eq, List.take_eq_nil_iff, not_or]
      exact ⟨hpos.ne', Nat.toDigits_ne_nil⟩
    · rw [List.take_append_drop]
      exact hdigits
  · left
    rw [toList_decimalText_small d hn hpoint]
    refine ⟨['0'], _, rfl, by simp, ?_, value_small d hn⟩
    exact List.forall_mem_append.mpr ⟨fun c hc => isDigit_of_mem_zeros (n := 1) hc,
      List.forall_mem_append.mpr ⟨fun c => isDigit_of_mem_zeros, hdigits⟩⟩
  · right
    obtain ⟨first, places, hcons⟩ := List.exists_cons_of_ne_nil
      (Nat.toDigits_ne_nil (b := 10) (n := d.digits))
    rw [toList_decimalText_raised d hcons hpoint]
    refine ⟨first, places, _, rfl, ?_, value_raised d hcons rfl⟩
    rw [← hcons]
    exact hdigits

end

/-- Digits are taken up to the first other character. -/
theorem takeWhile_digits {word : List Char} (hword : ∀ c ∈ word, isDigit c = true) {c : Char}
    (hc : isDigit c = false) (r : List Char) : (word ++ c :: r).takeWhile isDigit = word := by
  rw [List.takeWhile_append_of_pos hword, List.takeWhile_cons_of_neg (by rw [hc]; decide),
    List.append_nil]

/-- Digits are dropped up to the first other character. -/
theorem dropWhile_digits {word : List Char} (hword : ∀ c ∈ word, isDigit c = true) {c : Char}
    (hc : isDigit c = false) (r : List Char) : (word ++ c :: r).dropWhile isDigit = c :: r := by
  rw [List.dropWhile_append_of_pos hword, List.dropWhile_cons_of_neg (by rw [hc]; decide)]

/-- A decimal by its parts: the digits before the point, those behind it, and the exponent. -/
theorem decimal?_eq (negative : Bool) {text rest tail whole places : List Char} {D : Nat} {E : Int}
    (hplaces : (match rest with
      | '.' :: r => (r.takeWhile isDigit, r.dropWhile isDigit)
      | _ => ([], rest)) = (places, tail))
    (hwhole : text.takeWhile isDigit = whole) (hrest : text.dropWhile isDigit = rest)
    (hdigits : digits? 10 (whole ++ places) = some D) (hexponent : exponent? tail = some E) :
    decimal? negative text = some (.ofDecimal negative D (E - places.length)) := by
  split at hplaces
  · cases hplaces
    simp only [decimal?, hwhole, hrest, hdigits, hexponent]
    rfl
  · cases hplaces
    simp only [decimal?, hwhole, hrest, hdigits, hexponent]
    rfl

/-- Digits with a point between them. -/
theorem decimal?_pointed (negative : Bool) {whole places : List Char} (hne : whole ≠ [])
    (h : ∀ c ∈ whole ++ places, isDigit c = true) :
    decimal? negative (whole ++ '.' :: places) =
      some (.ofDecimal negative (Nat.ofDigitChars 10 (whole ++ places) 0)
        (0 - (places.length : Int))) := by
  have hwhole : ∀ c ∈ whole, isDigit c = true := fun c hc => h c (List.mem_append_left _ hc)
  have hplaces : ∀ c ∈ places, isDigit c = true := fun c hc => h c (List.mem_append_right _ hc)
  have htake : places.takeWhile isDigit = places := List.takeWhile_eq_self_iff.mpr hplaces
  have hdrop : places.dropWhile isDigit = [] := List.dropWhile_eq_nil_iff.mpr hplaces
  have hexponent : exponent? [] = some 0 := rfl
  refine decimal?_eq negative ?_ (takeWhile_digits hwhole (by decide) places)
    (dropWhile_digits hwhole (by decide) places)
    (digits?_of_isDigit (List.append_ne_nil_of_left_ne_nil hne places) h) hexponent
  simp only [htake, hdrop]

/-- The exponent behind its mark. -/
theorem exponent?_integerText (k : Int) : exponent? ('e' :: (integerText k).toList) = some k := by
  have hdigits := digits?_of_isDigit (Nat.toDigits_ne_nil (b := 10) (n := k.natAbs))
    fun c hc => isDigit_of_mem_toDigits hc
  rw [Nat.ofDigitChars_ten_toDigits] at hdigits
  rw [toList_integerText]
  by_cases hk : k < 0
  · have hneg : -(k.natAbs : Int) = k := by omega
    rw [if_pos hk, List.singleton_append, exponent?, if_neg (by decide)]
    simp only [hdigits, Option.map_some]
    exact congrArg some hneg
  · rw [if_neg hk, List.nil_append, exponent?, if_neg (by decide)]
    · rw [hdigits, Option.map_some]
      exact congrArg some (Int.natAbs_of_nonneg (by omega))
    · exact fun r h => toDigits_ne_cons (by decide) r h
    · exact fun r h => toDigits_ne_cons (by decide) r h

/-- Digits with an exponent behind them. -/
theorem decimal?_raised (negative : Bool) {first : Char} {places : List Char}
    (h : ∀ c ∈ first :: places, isDigit c = true) (k : Int) :
    decimal? negative (first :: (if places.isEmpty then [] else '.' :: places) ++
        'e' :: (integerText k).toList) =
      some (.ofDecimal negative (Nat.ofDigitChars 10 (first :: places) 0)
        (k - (places.length : Int))) := by
  have hfirst : ∀ c ∈ [first], isDigit c = true := by
    intro c hc
    rw [List.mem_singleton.mp hc]
    exact h first List.mem_cons_self
  have hplaces : ∀ c ∈ places, isDigit c = true := fun c hc => h c (List.mem_cons_of_mem _ hc)
  have hdigits := digits?_of_isDigit (List.cons_ne_nil first places) h
  have hexponent := exponent?_integerText k
  -- with one digit there is no point to look behind
  cases places with
  | nil =>
      exact decimal?_eq negative rfl (takeWhile_digits hfirst (by decide) _)
        (dropWhile_digits hfirst (by decide) _) hdigits hexponent
  | cons second places =>
      refine decimal?_eq negative ?_ (takeWhile_digits hfirst (c := '.') (by decide) _)
        (dropWhile_digits hfirst (c := '.') (by decide) _) hdigits hexponent
      exact congrArg₂ Prod.mk (takeWhile_digits hplaces (by decide) _)
        (dropWhile_digits hplaces (by decide) _)

/-- The shortest decimal of a number reads back as that number. -/
theorem decimal?_decimalText (negative : Bool) {m : Nat} {q : Int}
    (hc : Decimal.IsCanonical m q) :
    decimal? negative (decimalText (Decimal.shortest m q)).toList =
      some (.finite negative m q) := by
  rcases toList_decimalText (Decimal.shortest m q) with
    ⟨whole, places, htext, hne, hdigits, hvalue⟩ | ⟨first, places, k, htext, hdigits, hvalue⟩
  · rw [htext, decimal?_pointed negative hne hdigits, Decimal.ofDecimal_eq_of_value hc hvalue]
  · rw [htext, decimal?_raised negative hdigits, Decimal.ofDecimal_eq_of_value hc hvalue]

/-- The text of a decimal begins with a digit, and is more than digits. -/
theorem decimalText_shape (d : Scaled) :
    (∃ c r, (decimalText d).toList = c :: r ∧ isDigit c = true) ∧
      (∀ c ∈ (decimalText d).toList, isNumberChar c = true) ∧
      ∃ c ∈ (decimalText d).toList, isDigit c = false := by
  rcases toList_decimalText d with ⟨whole, places, htext, hne, hdigits, _⟩ |
    ⟨first, places, k, htext, hdigits, _⟩
  · obtain ⟨first, whole, rfl⟩ := List.exists_cons_of_ne_nil hne
    rw [List.forall_mem_append] at hdigits
    rw [htext]
    refine ⟨⟨first, _, rfl, hdigits.1 first List.mem_cons_self⟩, ?_, '.', by simp, rfl⟩
    exact List.forall_mem_append.mpr ⟨fun c hc => isNumberChar_of_isDigit (hdigits.1 c hc),
      List.forall_mem_cons.mpr ⟨rfl, fun c hc => isNumberChar_of_isDigit (hdigits.2 c hc)⟩⟩
  · rw [List.forall_mem_cons] at hdigits
    rw [htext]
    refine ⟨⟨first, _, rfl, hdigits.1⟩, ?_, 'e', by simp, rfl⟩
    have hplaces : ∀ c ∈ if places.isEmpty then [] else '.' :: places, isNumberChar c = true := by
      intro c hc
      split at hc
      · exact absurd hc List.not_mem_nil
      · rcases List.mem_cons.mp hc with rfl | hc
        · rfl
        · exact isNumberChar_of_isDigit (hdigits.2 c hc)
    exact List.forall_mem_append.mpr
      ⟨List.forall_mem_cons.mpr ⟨isNumberChar_of_isDigit hdigits.1, hplaces⟩,
        List.forall_mem_cons.mpr ⟨rfl, fun c => isNumberChar_of_mem_integerText⟩⟩

/-- A text is none of some words if it begins as none of them does. -/
theorem contains_eq_false {p : Char → Bool} {words : List String} {c : Char} {r : List Char}
    (hc : p c = true) (h : ∀ word ∈ words, word.toList.head?.any p = false) :
    words.contains (String.ofList (c :: r)) = false := by
  refine Bool.eq_false_iff.mpr fun hcontains => ?_
  have hword := h _ (List.contains_iff_mem.mp hcontains)
  rw [String.toList_ofList, List.head?_cons, Option.any_some, hc] at hword
  cases hword

/-- A finite number is written as its shortest decimal. -/
theorem toList_fractionText (negative : Bool) (m : Nat) (q : Int) :
    (fractionText (.finite negative m q)).toList =
      (if negative then ['-'] else []) ++ (decimalText (Decimal.shortest m q)).toList := by
  cases negative <;> simp [fractionText]

/-- The text of a fraction is read as that fraction. -/
theorem fraction?_fractionText {x : Binary64} (hx : x.IsCanonical) :
    fraction? (fractionText x).toList = some x := by
  cases x with
  -- the words for what is not finite are few enough to be read through
  | infinity negative => cases negative <;> decide +kernel
  | nan => decide +kernel
  | finite negative m q =>
      rcases (decimalText_shape (Decimal.shortest m q)).1 with ⟨c, r, htext, hc⟩
      have hdecimal := decimal?_decimalText negative (m := m) (q := q) hx
      have hword : infinities.contains (String.ofList (c :: r)) = false :=
        contains_eq_false hc (by decide)
      rw [toList_fractionText, htext]
      rw [htext] at hdecimal
      cases negative with
      | true =>
          have hnan : nans.contains (String.ofList ('-' :: c :: r)) = false :=
            contains_eq_false (p := (· == '-')) rfl (by decide)
          rw [if_pos rfl, List.singleton_append]
          simp only [fraction?, hnan, hword, hdecimal]
          rfl
      | false =>
          have hnan : nans.contains (String.ofList (c :: r)) = false :=
            contains_eq_false hc (by decide)
          have hbehind : behind? ['+'] (c :: r) = none := by
            unfold behind?
            rw [if_neg]
            intro h
            rw [List.isPrefixOf_cons_cons, Bool.and_eq_true, beq_iff_eq] at h
            rw [← h.1] at hc
            cases hc
          rw [if_neg Bool.false_ne_true, List.nil_append]
          simp only [fraction?, hnan, Bool.false_eq_true, if_false]
          split
          · rename_i h
            cases h
            cases hc
          · rename_i h
            cases h
            cases hc
          · rename_i h
            cases h
            cases hc
          · simp only [hbehind, Option.getD_none, hword, hdecimal]
            rfl

/-- What is read from a decimal is a number as documents hold them. -/
theorem decimal?_isCanonical {negative : Bool} {text : List Char} {x : Binary64}
    (h : decimal? negative text = some x) : x.IsCanonical := by
  unfold decimal? at h
  simp only [Option.bind_eq_bind, Option.pure_def, Option.bind_eq_some_iff,
    Option.some.injEq] at h
  rcases h with ⟨digits, _, exponent, _, rfl⟩
  exact Decimal.ofDecimal_isCanonical negative digits _

/-- A fraction that is read is in canonical form. -/
theorem fraction?_isCanonical {text : List Char} {x : Binary64} (h : fraction? text = some x) :
    x.IsCanonical := by
  unfold fraction? at h
  simp only at h
  have hfilter : ∀ {negative r}, (decimal? negative r).filter (·.isFinite) = some x →
      x.IsCanonical := fun h => decimal?_isCanonical (Option.filter_eq_some_iff.mp h).1
  split at h
  · cases h
    trivial
  split at h
  · cases h
  · cases h
  · split at h
    · cases h
      trivial
    · exact hfilter h
  · split at h
    · cases h
      trivial
    · exact hfilter h

/-! ## Types -/

/-- A text is no integer if it has, behind a sign, something that no integer has. -/
theorem not_integer {sign text : List Char} (hsign : sign = [] ∨ sign = ['-'])
    (hchars : ∀ c ∈ text, isNumberChar c = true) (hhead : ∃ c r, text = c :: r ∧ isDigit c = true)
    (hmem : ∃ c ∈ text, isDigit c = false) :
    anyInteger? (sign ++ text) = none ∧ hasLeadingZero (sign ++ text) = false := by
  rcases hhead with ⟨first, r, rfl, hfirst⟩
  rcases hmem with ⟨c, hmem, hc⟩
  have hmagnitude := magnitude?_eq_none hchars hmem hc
  rcases hsign with rfl | rfl
  · have hzero : hasLeadingZero (first :: r) = false :=
      hasLeadingZero_eq_false (by rw [unsigned_of_isDigit hfirst]; exact hmem) hc
    refine ⟨?_, hzero⟩
    rw [List.nil_append, anyInteger?_of_isDigit hfirst hzero, hmagnitude]
    rfl
  · have hzero : hasLeadingZero ('-' :: first :: r) = false := hasLeadingZero_eq_false hmem hc
    refine ⟨?_, hzero⟩
    change anyInteger? ('-' :: first :: r) = none
    simp only [anyInteger?, hzero, hmagnitude]
    rfl

/-- The text of a number is a word, or digits and the like behind a sign. -/
theorem text_shape (n : Number) :
    n.text ∈ [".inf", "-.inf", ".nan"] ∨
      ∃ sign c r, n.text.toList = sign ++ c :: r ∧ (sign = [] ∨ sign = ['-']) ∧ isDigit c = true ∧
        ∀ d ∈ c :: r, isNumberChar d = true := by
  cases n with
  | integer n =>
      right
      cases hdigits : Nat.toDigits 10 n.natAbs with
      | nil => exact absurd hdigits Nat.toDigits_ne_nil
      | cons c r =>
          have hall : ∀ d ∈ c :: r, isDigit d = true :=
            fun d hd => isDigit_of_mem_toDigits (hdigits ▸ hd)
          refine ⟨if n < 0 then ['-'] else [], c, r, ?_, ?_, hall c List.mem_cons_self,
            fun d hd => isNumberChar_of_isDigit (hall d hd)⟩
          · rw [text, toList_integerText, hdigits]
          · split
            · exact .inr rfl
            · exact .inl rfl
  | fraction x =>
      cases x with
      | infinity negative =>
          left
          cases negative <;> decide
      | nan =>
          left
          decide
      | finite negative m q =>
          right
          rcases decimalText_shape (Decimal.shortest m q) with ⟨⟨c, r, htext, hc⟩, hchars, _⟩
          refine ⟨if negative then ['-'] else [], c, r, ?_, ?_, hc, htext ▸ hchars⟩
          · rw [text, toList_fractionText, htext]
          · cases negative
            · exact .inl rfl
            · exact .inr rfl

/-- The text of a number is no word that stands for something else. -/
theorem text_not_word {words : List String} {n : Number}
    (h : ∀ word ∈ words, word.toList.head?.any (fun c => isNumberChar c && c != 'e') = false) :
    words.contains n.text = false := by
  have hword : ∀ {s : String}, s.toList.head?.any (fun c => isNumberChar c && c != 'e') = true →
      words.contains s = false := by
    intro s hs
    cases htext : s.toList with
    | nil =>
        rw [htext] at hs
        cases hs
    | cons c r =>
        rw [htext] at hs
        have hwords : words.contains (String.ofList (c :: r)) = false := contains_eq_false hs h
        rw [← htext, String.ofList_toList] at hwords
        exact hwords
  apply hword
  rcases text_shape n with hmem | ⟨sign, c, r, htext, hsign, hc, _⟩
  · revert hmem
    generalize n.text = s
    revert s
    decide
  · rw [htext]
    rcases hsign with rfl | rfl
    · rw [List.nil_append, List.head?_cons, Option.any_some, isNumberChar_of_isDigit hc,
        Bool.true_and, bne_iff_ne]
      rintro rfl
      cases hc
    · rfl

/-- The text of a number is spelled like that number. -/
theorem spelled?_text {n : Number} (hn : IsKept n) :
    Value.spelled? n.text.toList = .ok (some (.number n)) := by
  have hnull : Value.nulls.contains n.text = false := text_not_word (by decide)
  have hbool : Value.bools.lookup n.text = none := by
    have hword : (Value.bools.map (·.1)).contains n.text = false := text_not_word (by decide)
    refine List.lookup_eq_none_iff.mpr fun word hmem => bne_iff_ne.mpr fun heq => ?_
    have hcontains : n.text ∈ Value.bools.map (·.1) := heq ▸ List.mem_map_of_mem hmem
    rw [List.contains_iff_mem.mpr hcontains] at hword
    cases hword
  have hempty : n.text.toList.isEmpty = false := by
    rcases text_shape n with hmem | ⟨sign, c, r, htext, _⟩
    · revert hmem
      generalize n.text = s
      revert s
      decide
    · rw [htext]
      cases sign <;> rfl
  simp only [Value.spelled?, String.ofList_toList, hempty, hnull, hbool, Bool.or_false,
    Bool.false_eq_true, if_false]
  -- no word and not empty, so it is tried as an integer and then as a fraction
  cases n with
  | integer n =>
      have hfit : fit n = .fits := hn
      rw [text, anyInteger?_integerText]
      simp only [hfit]
  | fraction x =>
      have hfraction := fraction?_fractionText (x := x) hn
      have hinteger : anyInteger? (fractionText x).toList = none ∧
          hasLeadingZero (fractionText x).toList = false := by
        cases x with
        | infinity negative => cases negative <;> decide +kernel
        | nan => decide +kernel
        | finite negative m q =>
            rcases decimalText_shape (Decimal.shortest m q) with ⟨hhead, hchars, hmem⟩
            rw [toList_fractionText]
            refine not_integer ?_ hchars hhead hmem
            cases negative
            · exact .inl rfl
            · exact .inr rfl
      rw [text]
      simp only [hinteger.1, hinteger.2, hfraction, Option.map_some, Bool.false_eq_true, if_false]

end Number

end OperatorBundle.Yaml
