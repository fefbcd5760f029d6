import OperatorBundle.Proofs.Decimal.Rounding

/-!
# What makes a decimal the shortest

Of the decimals that round to a number, the one with the fewest digits and, of those with equally few,
the nearest.  There is one such decimal only, and the search finds it.

A decimal is a multiple of a power of ten.  For each power the search looks at the two multiples next
to the number: if any multiple of the power rounds to the number then one of these does, and none is
nearer.  The greatest power with such a multiple gives the fewest digits.
-/

namespace OperatorBundle.Decimal

/-! ## What is asked for -/

/-- Can this be written with so many digits and a power of ten? -/
def HasDigits (n : Nat) (x : ℚ) : Prop :=
  ∃ d : Scaled, d.digits < 10 ^ n ∧ d.value = x

/-- Is `x` to be preferred to `y` in the place of `v`?  It is nearer, or as near and an even multiple
of a power of ten of which `y` is an odd one. -/
def IsNearer (v x y : ℚ) : Prop :=
  |x - v| < |y - v| ∨
    |x - v| = |y - v| ∧ ∃ (D E : Nat) (e : Int), x = ((2 * D : Nat) : ℚ) * 10 ^ e ∧
      y = ((2 * E + 1 : Nat) : ℚ) * 10 ^ e

/-- Is this the shortest decimal that rounds to `m * 2 ^ q`, and of several the one to be preferred? -/
structure IsShortest (m : Nat) (q : Int) (x : ℚ) : Prop where
  rounds : RoundsTo m q x
  fewest : ∀ y, RoundsTo m q y → ∀ n, HasDigits n y → HasDigits n x
  nearest : ∀ y, RoundsTo m q y → (∀ n, HasDigits n x → HasDigits n y) → y ≠ x →
    IsNearer (m * 2 ^ q) x y

/-- What is nearer is not further away. -/
theorem IsNearer.le {v x y : ℚ} (h : IsNearer v x y) : |x - v| ≤ |y - v| := by
  rcases h with hless | ⟨hsame, _⟩
  · exact hless.le
  · exact hsame.le

/-- Of two numbers only one is to be preferred to the other. -/
theorem IsNearer.not_symm {v x y : ℚ} (h : IsNearer v x y) : ¬ IsNearer v y x := by
  rintro (hless | ⟨hsame, D', E', e', hy', hx'⟩)
  · rcases h with hmore | ⟨hsame, _⟩
    · exact lt_asymm hless hmore
    · exact hless.ne hsame.symm
  · rcases h with hmore | ⟨_, D, E, e, hx, hy⟩
    · exact hmore.ne hsame.symm
    -- an even multiple of a power of ten is one of each lesser power as well
    · have hodd : ∀ {A B : Nat} {i j : Int}, i ≤ j →
          ((2 * A : Nat) : ℚ) * 10 ^ j ≠ ((2 * B + 1 : Nat) : ℚ) * 10 ^ i := by
        intro A B i j hij heq
        obtain ⟨k, hk⟩ := Int.le.dest hij
        rw [← hk, zpow_add₀ (by norm_num), zpow_natCast, mul_comm ((10 : ℚ) ^ i), ← mul_assoc] at heq
        have hcancel := mul_right_cancel₀ (by positivity) heq
        have hnat : 2 * A * 10 ^ k = 2 * B + 1 := by exact_mod_cast hcancel
        rw [Nat.mul_assoc] at hnat
        omega
      rcases le_total e' e with hle | hle
      · exact hodd hle (hx.symm.trans hx')
      · exact hodd hle (hy'.symm.trans hy)

/-- There is one shortest decimal. -/
theorem IsShortest.unique {m : Nat} {q : Int} {x y : ℚ} (hx : IsShortest m q x)
    (hy : IsShortest m q y) : x = y := by
  by_contra hne
  have hxy : IsNearer (m * 2 ^ q) x y :=
    hx.nearest y hy.rounds (hy.fewest x hx.rounds) (Ne.symm hne)
  have hyx : IsNearer (m * 2 ^ q) y x := hy.nearest x hx.rounds (hx.fewest y hy.rounds) hne
  exact hxy.not_symm hyx

/-! ## The numbers that round to another -/

/-- What lies between two numbers that round to a third does so too. -/
theorem RoundsTo.of_between {m : Nat} {q : Int} {x y z : ℚ} (hx : RoundsTo m q x)
    (hy : RoundsTo m q y) (hxz : x ≤ z) (hzy : z ≤ y) : RoundsTo m q z :=
  ⟨hx.lower.trans hxz, hzy.trans hy.upper,
    fun hodd => ⟨lt_of_lt_of_le (hx.odd hodd).1 hxz, lt_of_le_of_lt hzy (hy.odd hodd).2⟩⟩

/-! ## Multiples of a power of ten -/

namespace Grid

section

variable (m : Nat) (q e : Int)

/-- The unit in which a power of ten and what it leaves of a number are integers. -/
def step : Nat := 2 ^ (-q).toNat * 10 ^ e.toNat

/-- How many times a power of ten goes into a number. -/
def times : Nat := m * 2 ^ q.toNat * 10 ^ (-e).toNat / step q e

/-- What it leaves of the number. -/
def rest : Nat := m * 2 ^ q.toNat * 10 ^ (-e).toNat % step q e

theorem step_pos : 0 < step q e := by
  unfold step
  positivity

/-- The rest is less than one step. -/
theorem rest_lt : rest m q e < step q e := Nat.mod_lt _ (step_pos q e)

/-- What is left, as a part of the power of ten. -/
def part : ℚ := (rest m q e : ℚ) / step q e

theorem part_nonneg : 0 ≤ part m q e := by
  unfold part
  positivity

/-- The part of a step is less than one. -/
theorem part_lt_one : part m q e < 1 := by
  have hstep : (0 : ℚ) < step q e := by exact_mod_cast step_pos q e
  unfold part
  rw [div_lt_one hstep]
  exact_mod_cast rest_lt m q e

/-- The part is less than half just if twice the rest is less than a step. -/
theorem part_lt_half_iff : part m q e < 1 / 2 ↔ 2 * rest m q e < step q e := by
  have hstep : (0 : ℚ) < step q e := by exact_mod_cast step_pos q e
  unfold part
  rw [div_lt_div_iff₀ hstep (by norm_num), one_mul, mul_comm]
  exact_mod_cast Iff.rfl

/-- The part is more than half just if twice the rest is more than a step. -/
theorem half_lt_part_iff : 1 / 2 < part m q e ↔ step q e < 2 * rest m q e := by
  have hstep : (0 : ℚ) < step q e := by exact_mod_cast step_pos q e
  unfold part
  rw [div_lt_div_iff₀ (by norm_num) hstep, one_mul, mul_comm]
  exact_mod_cast Iff.rfl

/-- The part is half just if twice the rest is a step. -/
theorem part_eq_half_iff : part m q e = 1 / 2 ↔ 2 * rest m q e = step q e := by
  have hstep : (0 : ℚ) < step q e := by exact_mod_cast step_pos q e
  unfold part
  rw [div_eq_div_iff hstep.ne' (by norm_num), one_mul, mul_comm]
  exact_mod_cast Iff.rfl

/-- The number in multiples of the power of ten. -/
theorem value_eq : (m : ℚ) * 2 ^ q = ((times m q e : ℚ) + part m q e) * 10 ^ e := by
  have hstep : (step q e : ℚ) ≠ 0 := by exact_mod_cast (step_pos q e).ne'
  have hdivision : m * 2 ^ q.toNat * 10 ^ (-e).toNat = step q e * times m q e + rest m q e :=
    (Nat.div_add_mod _ _).symm
  have hcast : (m : ℚ) * 2 ^ q.toNat * 10 ^ (-e).toNat = step q e * times m q e + rest m q e := by
    exact_mod_cast hdivision
  have hsum : (times m q e : ℚ) + part m q e = (m : ℚ) * 2 ^ q.toNat * 10 ^ (-e).toNat / step q e := by
    unfold part
    rw [hcast]
    field_simp
  rw [hsum, zpow_eq_div_toNat 2 q, zpow_eq_div_toNat 10 e]
  unfold step
  push_cast
  field_simp

/-- The number lies between two neighbouring multiples. -/
theorem between : (times m q e : ℚ) * 10 ^ e ≤ m * 2 ^ q ∧
    m * 2 ^ q < ((times m q e + 1 : Nat) : ℚ) * 10 ^ e := by
  have hnonneg := part_nonneg m q e
  have hone := part_lt_one m q e
  rw [value_eq m q e]
  push_cast
  constructor
  · gcongr
    linarith
  · gcongr

end

/-- More of a power is more. -/
theorem multiple_le {A B : Nat} (e : Int) (h : A ≤ B) : (A : ℚ) * 10 ^ e ≤ (B : ℚ) * 10 ^ e := by
  gcongr

/-- Preference among multiples of a power of ten. -/
theorem isNearer_of_multiples {C G : Nat} {w : ℚ} (e : Int)
    (h : |(C : ℚ) - w| < |(G : ℚ) - w| ∨
      |(C : ℚ) - w| = |(G : ℚ) - w| ∧ C % 2 = 0 ∧ G % 2 = 1) :
    IsNearer (w * 10 ^ e) ((C : ℚ) * 10 ^ e) ((G : ℚ) * 10 ^ e) := by
  have hten : (0 : ℚ) < 10 ^ e := by positivity
  have hscaled : ∀ n : Nat, |(n : ℚ) * 10 ^ e - w * 10 ^ e| = |(n : ℚ) - w| * 10 ^ e := by
    intro n
    rw [← sub_mul, abs_mul, abs_of_pos hten]
  unfold IsNearer
  rw [hscaled, hscaled, mul_lt_mul_iff_left₀ hten]
  refine h.imp_right fun ⟨hsame, heven, hodd⟩ => ⟨by rw [hsame], C / 2, G / 2, e, ?_, ?_⟩
  · rw [Nat.mul_div_cancel' (Nat.dvd_of_mod_eq_zero heven)]
  · have hsplit : 2 * (G / 2) + 1 = G := by omega
    rw [hsplit]

section

variable {f G : Nat} {t : ℚ}

/-- The integer below is preferred to another one. -/
theorem nearer_below (hnonneg : 0 ≤ t) (hone : t < 1) (hne : G ≠ f)
    (h : f < G → t < 1 / 2 ∨ t = 1 / 2 ∧ f % 2 = 0) :
    |(f : ℚ) - (f + t)| < |(G : ℚ) - (f + t)| ∨
      |(f : ℚ) - (f + t)| = |(G : ℚ) - (f + t)| ∧ f % 2 = 0 ∧ G % 2 = 1 := by
  have hself : |(f : ℚ) - (f + t)| = t := by
    rw [abs_of_nonpos (by linarith)]
    ring
  rw [hself]
  rcases Nat.lt_or_gt_of_ne hne with hless | hmore
  · have hG : (G : ℚ) + 1 ≤ f := by exact_mod_cast hless
    left
    rw [abs_of_nonpos (by linarith)]
    linarith
  · have hG : (f : ℚ) + 1 ≤ G := by exact_mod_cast hmore
    rw [abs_of_nonneg (by linarith)]
    rcases h hmore with hnear | ⟨hhalf, heven⟩
    · left
      linarith
    -- half way between two integers both are equally near, and all others farther
    · rcases Nat.eq_or_lt_of_le hmore with hnext | hfar
      · right
        refine ⟨?_, heven, by omega⟩
        rw [← hnext, hhalf]
        push_cast
        ring
      · have hG' : (f : ℚ) + 1 + 1 ≤ G := by exact_mod_cast hfar
        left
        linarith

/-- The integer above is preferred to another one. -/
theorem nearer_above (hnonneg : 0 ≤ t) (hone : t < 1) (hne : G ≠ f + 1)
    (h : G ≤ f → 1 / 2 < t ∨ t = 1 / 2 ∧ f % 2 = 1) :
    |((f + 1 : Nat) : ℚ) - (f + t)| < |(G : ℚ) - (f + t)| ∨
      |((f + 1 : Nat) : ℚ) - (f + t)| = |(G : ℚ) - (f + t)| ∧ (f + 1) % 2 = 0 ∧ G % 2 = 1 := by
  have hself : |((f + 1 : Nat) : ℚ) - (f + t)| = 1 - t := by
    push_cast
    rw [abs_of_nonneg (by linarith)]
    ring
  rw [hself]
  rcases Nat.lt_or_gt_of_ne hne with hless | hmore
  · have hle : G ≤ f := Nat.le_of_lt_succ hless
    have hG : (G : ℚ) ≤ f := by exact_mod_cast hle
    rw [abs_of_nonpos (by linarith)]
    rcases h hle with hnear | ⟨hhalf, hodd⟩
    · left
      linarith
    · rcases Nat.eq_or_lt_of_le hle with rfl | hfar
      · right
        refine ⟨?_, by omega, hodd⟩
        rw [hhalf]
        ring
      · have hG' : (G : ℚ) + 1 ≤ f := by exact_mod_cast hfar
        left
        linarith
  · have hG : (f : ℚ) + 1 + 1 ≤ G := by exact_mod_cast hmore
    left
    rw [abs_of_nonneg (by linarith)]
    linarith

end

end Grid

/-! ## The better of two neighbours -/

/-- One of the two neighbours is found, and the other is then not to be preferred. -/
inductive IsFound (m : Nat) (q e : Int) : Scaled → Prop
  | below (hrounds : RoundsTo m q (Scaled.value ⟨Grid.times m q e, e⟩))
      (hbetter : RoundsTo m q (Scaled.value ⟨Grid.times m q e + 1, e⟩) →
        2 * Grid.rest m q e < Grid.step q e ∨
          2 * Grid.rest m q e = Grid.step q e ∧ Grid.times m q e % 2 = 0) :
      IsFound m q e ⟨Grid.times m q e, e⟩
  | above (hrounds : RoundsTo m q (Scaled.value ⟨Grid.times m q e + 1, e⟩))
      (hbetter : RoundsTo m q (Scaled.value ⟨Grid.times m q e, e⟩) →
        Grid.step q e < 2 * Grid.rest m q e ∨
          2 * Grid.rest m q e = Grid.step q e ∧ Grid.times m q e % 2 = 1) :
      IsFound m q e ⟨Grid.times m q e + 1, e⟩

section

variable {m : Nat} {q e : Int} {d : Scaled}

variable (m q e) in
/-- Of two neighbours on the grid the nearer one is taken that is read back. -/
theorem nearest?_eq : nearest? m q e =
    match readsBack m q ⟨Grid.times m q e, e⟩, readsBack m q ⟨Grid.times m q e + 1, e⟩ with
    | false, false => none
    | true, false => some ⟨Grid.times m q e, e⟩
    | false, true => some ⟨Grid.times m q e + 1, e⟩
    | true, true =>
        match compare (2 * Grid.rest m q e) (Grid.step q e) with
        | .lt => some ⟨Grid.times m q e, e⟩
        | .gt => some ⟨Grid.times m q e + 1, e⟩
        | .eq => some (if Grid.times m q e % 2 == 0 then ⟨Grid.times m q e, e⟩
            else ⟨Grid.times m q e + 1, e⟩) := rfl

/-- What is found is the nearest on the grid that is read back. -/
theorem isFound_of_nearest? (h : nearest? m q e = some d) : IsFound m q e d := by
  rw [nearest?_eq] at h
  split at h
  · cases h
  -- where only one neighbour reads back there is no choice
  · rename_i hbelow habove
    cases h
    refine .below (readsBack_iff.mp hbelow) fun hother => ?_
    rw [readsBack_iff.mpr hother] at habove
    cases habove
  · rename_i hbelow habove
    cases h
    refine .above (readsBack_iff.mp habove) fun hother => ?_
    rw [readsBack_iff.mpr hother] at hbelow
    cases hbelow
  -- where both do, what is left over decides, and at half way the even one is taken
  · rename_i hbelow habove
    have hbelow := readsBack_iff.mp hbelow
    have habove := readsBack_iff.mp habove
    split at h
    · rename_i hless
      cases h
      exact .below hbelow fun _ => .inl (Nat.compare_eq_lt.mp hless)
    · rename_i hmore
      cases h
      exact .above habove fun _ => .inl (Nat.compare_eq_gt.mp hmore)
    · rename_i hsame
      have hhalf := Nat.compare_eq_eq.mp hsame
      cases h
      split
      · rename_i heven
        exact .below hbelow fun _ => .inr ⟨hhalf, beq_iff_eq.mp heven⟩
      · rename_i hodd
        rw [beq_iff_eq] at hodd
        exact .above habove fun _ => .inr ⟨hhalf, by omega⟩

/-- What is found lies on the grid. -/
theorem IsFound.exponent_eq (h : IsFound m q e d) : d.exponent = e := by
  cases h <;> rfl

/-- What is found is read back. -/
theorem IsFound.rounds (h : IsFound m q e d) : RoundsTo m q d.value := by
  cases h with
  | below hrounds _ => exact hrounds
  | above hrounds _ => exact hrounds

/-- What is found is to be preferred to all other multiples that round to the number. -/
theorem IsFound.nearest (hm : 0 < m) (h : IsFound m q e d) {G : Nat}
    (hG : RoundsTo m q ((G : ℚ) * 10 ^ e)) (hne : G ≠ d.digits) :
    IsNearer (m * 2 ^ q) d.value ((G : ℚ) * 10 ^ e) := by
  obtain ⟨hbelow, habove⟩ := Grid.between m q e
  have hself := roundsTo_self hm q
  rw [Grid.value_eq m q e]
  cases h with
  | below hrounds hbetter =>
      refine Grid.isNearer_of_multiples e
        (Grid.nearer_below (Grid.part_nonneg m q e) (Grid.part_lt_one m q e) hne fun hmore => ?_)
      -- the neighbour above lies between the number and the other multiple
      have hother := hself.of_between hG habove.le (Grid.multiple_le e hmore)
      rw [Grid.part_lt_half_iff, Grid.part_eq_half_iff]
      exact hbetter hother
  | above hrounds hbetter =>
      refine Grid.isNearer_of_multiples e
        (Grid.nearer_above (Grid.part_nonneg m q e) (Grid.part_lt_one m q e) hne fun hless => ?_)
      have hother := hG.of_between hself (Grid.multiple_le e hless) hbelow
      rw [Grid.half_lt_part_iff, Grid.part_eq_half_iff]
      exact hbetter hother

/-- Where nothing is found, neither neighbour is read back. -/
theorem not_rounds_of_nearest? (h : nearest? m q e = none) :
    ¬ RoundsTo m q (Scaled.value ⟨Grid.times m q e, e⟩) ∧
      ¬ RoundsTo m q (Scaled.value ⟨Grid.times m q e + 1, e⟩) := by
  rw [nearest?_eq] at h
  split at h
  · rename_i hbelow habove
    rw [← readsBack_iff, ← readsBack_iff, hbelow, habove]
    exact ⟨Bool.false_ne_true, Bool.false_ne_true⟩
  · cases h
  · cases h
  · split at h <;> cases h

/-- Where a multiple rounds to the number, one is found. -/
theorem exists_nearest? (hm : 0 < m) {G : Nat} (hG : RoundsTo m q ((G : ℚ) * 10 ^ e)) :
    ∃ d, nearest? m q e = some d := by
  obtain ⟨hbelow, habove⟩ := Grid.between m q e
  have hself := roundsTo_self hm q
  have hneighbour : RoundsTo m q (Scaled.value ⟨Grid.times m q e, e⟩) ∨
      RoundsTo m q (Scaled.value ⟨Grid.times m q e + 1, e⟩) := by
    rcases Nat.lt_or_ge (Grid.times m q e) G with hmore | hless
    · exact .inr (hself.of_between hG habove.le (Grid.multiple_le e hmore))
    · exact .inl (hG.of_between hself (Grid.multiple_le e hless) hbelow)
  cases hnearest : nearest? m q e with
  | some d => exact ⟨d, rfl⟩
  | none =>
      obtain ⟨hno, hnone⟩ := not_rounds_of_nearest? hnearest
      exact absurd hneighbour (not_or.mpr ⟨hno, hnone⟩)

/-- What is found is no greater than a multiple that is not less than the number. -/
theorem IsFound.le (hm : 0 < m) (h : IsFound m q e d) {B : Nat}
    (hB : (m : ℚ) * 2 ^ q ≤ (B : ℚ) * 10 ^ e) : d.value ≤ (B : ℚ) * 10 ^ e := by
  obtain ⟨hbelow, _⟩ := Grid.between m q e
  cases h with
  | below _ _ => exact hbelow.trans hB
  | above hrounds hbetter =>
      rcases Nat.lt_or_ge (Grid.times m q e) B with hless | hmore
      · exact Grid.multiple_le e hless
      -- the number is itself a multiple, and nothing is nearer
      · have hsame : (B : ℚ) * 10 ^ e = m * 2 ^ q :=
          le_antisymm ((Grid.multiple_le e hmore).trans hbelow) hB
        have hG : RoundsTo m q ((B : ℚ) * 10 ^ e) := hsame ▸ roundsTo_self hm q
        have hother : B ≠ Grid.times m q e + 1 := by omega
        have hnearer := (IsFound.above hrounds hbetter).nearest hm hG hother
        rw [hsame, IsNearer, sub_self, abs_zero] at hnearer
        rcases hnearer with hless | ⟨hzero, _⟩
        · exact absurd hless (not_lt.mpr (abs_nonneg _))
        · rw [hsame]
          exact (sub_eq_zero.mp (abs_eq_zero.mp hzero)).le

end

/-! ## The search -/

/-- This is found among the multiples of a power of ten, and among those of the greater powers up to
`10 ^ top` there is none that rounds to the number. -/
structure IsGreatest (m : Nat) (q top : Int) (d : Scaled) : Prop where
  found : IsFound m q d.exponent d
  le : d.exponent ≤ top
  none : ∀ e, d.exponent < e → e ≤ top → ∀ G : Nat, ¬ RoundsTo m q ((G : ℚ) * 10 ^ e)

/-- The search stops at the greatest exponent at which a multiple rounds to the number. -/
theorem isGreatest_searchFrom {m : Nat} (hm : 0 < m) {q : Int} {n i G : Nat} {top : Int} (hi : i < n)
    (hG : RoundsTo m q ((G : ℚ) * 10 ^ (top - i))) :
    IsGreatest m q top (searchFrom m q n top) ∧ top - i ≤ (searchFrom m q n top).exponent := by
  -- the induction is on the steps left; a multiple that is known to round bounds how far they go
  induction n generalizing top i with
  | zero => exact absurd hi (Nat.not_lt_zero i)
  | succ n ih =>
      rw [searchFrom]
      cases hnearest : nearest? m q top with
      | some d =>
          have hfound := isFound_of_nearest? hnearest
          have hexponent := hfound.exponent_eq
          rw [Option.getD_some]
          refine ⟨⟨hexponent.symm ▸ hfound, hexponent.le, fun e hlt hle => ?_⟩, by omega⟩
          omega
      | none =>
          have hnone : ∀ G' : Nat, ¬ RoundsTo m q ((G' : ℚ) * 10 ^ top) := by
            intro G' hG'
            obtain ⟨d, hd⟩ := exists_nearest? hm hG'
            rw [hnearest] at hd
            cases hd
          cases i with
          | zero =>
              rw [Nat.cast_zero, sub_zero] at hG
              exact absurd hG (hnone G)
          | succ i =>
              have hstep : top - ((i + 1 : Nat) : Int) = top - 1 - i := by omega
              rw [hstep] at hG ⊢
              obtain ⟨⟨hfound, hle, hbetween⟩, hlow⟩ := ih (by omega) hG
              rw [Option.getD_none]
              refine ⟨⟨hfound, by omega, fun e hlt hle => ?_⟩, hlow⟩
              rcases Int.lt_or_eq_of_le hle with hless | rfl
              · exact hbetween e hlt (by omega)
              · exact hnone

/-- A ratio lies between two powers of ten. -/
theorem magnitude_between {a b : Nat} (ha : 0 < a) (hb : 0 < b) :
    (10 : ℚ) ^ (magnitude a b - 1) ≤ (a : ℚ) / b ∧ (a : ℚ) / b ≤ (10 : ℚ) ^ magnitude a b := by
  have haq : (0 : ℚ) < a := by exact_mod_cast ha
  have hbq : (0 : ℚ) < b := by exact_mod_cast hb
  unfold magnitude
  split
  · rename_i hle
    have hpos : 0 < a / b := Nat.div_pos hle hb
    obtain ⟨hlow, hhigh⟩ := toDigits_length_bounds hpos
    have hlength : 0 < (Nat.toDigits 10 (a / b)).length := Nat.length_toDigits_pos
    obtain ⟨l, hl⟩ := Nat.exists_eq_succ_of_ne_zero hlength.ne'
    rw [hl] at hlow hhigh ⊢
    rw [Nat.le_div_iff_mul_le hb] at hlow
    rw [Nat.div_lt_iff_lt_mul hb] at hhigh
    have hexponent : ((l.succ : Nat) : Int) - 1 = (l : Int) := by omega
    rw [hexponent, zpow_natCast, zpow_natCast, le_div_iff₀ hbq, div_le_iff₀ hbq]
    constructor
    · exact_mod_cast hlow
    · exact_mod_cast hhigh.le
  · rename_i hless
    have hpos : 0 < b / a := Nat.div_pos (by omega) ha
    obtain ⟨hlow, hhigh⟩ := toDigits_length_bounds hpos
    have hlength : 0 < (Nat.toDigits 10 (b / a)).length := Nat.length_toDigits_pos
    obtain ⟨l, hl⟩ := Nat.exists_eq_succ_of_ne_zero hlength.ne'
    rw [hl] at hlow hhigh ⊢
    rw [Nat.le_div_iff_mul_le ha] at hlow
    rw [Nat.div_lt_iff_lt_mul ha] at hhigh
    have hleast : (1 : Int) - ((l.succ : Nat) : Int) - 1 = -((l + 1 : Nat) : Int) := by omega
    have hmost : (1 : Int) - ((l.succ : Nat) : Int) = -((l : Nat) : Int) := by omega
    rw [hleast, hmost, zpow_neg, zpow_neg, zpow_natCast, zpow_natCast, inv_eq_one_div, inv_eq_one_div,
      div_le_div_iff₀ (by positivity) hbq, div_le_div_iff₀ hbq (by positivity), one_mul]
    constructor
    · rw [mul_comm]
      exact_mod_cast hhigh.le
    · rw [mul_comm]
      exact_mod_cast hlow

/-- A power of ten that is small beside the number is fine enough: the multiple above the number
rounds to it. -/
theorem rounds_above {m : Nat} (hm : 0 < m) (hsmall : m < 2 ^ 53) {q e : Int}
    (he : (10 : ℚ) ^ 17 * 10 ^ e ≤ m * 2 ^ q) :
    RoundsTo m q (((Grid.times m q e + 1 : Nat) : ℚ) * 10 ^ e) := by
  obtain ⟨hbelow, habove⟩ := Grid.between m q e
  have hself := roundsTo_self hm q
  have hpow : (0 : ℚ) < 2 ^ q := by positivity
  have hmq : (m : ℚ) ≤ 2 ^ 53 := by exact_mod_cast hsmall.le
  have hlarge : (m : ℚ) * 2 ^ q ≤ 2 ^ 53 * 2 ^ q := by gcongr
  have hupper : ((Grid.times m q e + 1 : Nat) : ℚ) * 10 ^ e <
      ((4 * m + 2 : Nat) : ℚ) * 2 ^ (q - 2) := by
    rw [zpow_sub_two]
    push_cast
    linarith
  exact ⟨hself.lower.trans habove.le, hupper.le,
    fun hodd => ⟨(hself.odd hodd).1.trans habove, hupper⟩⟩

/-! ## What the search finds -/

/-- Digits that are enough are so with more of them. -/
theorem HasDigits.mono {k n : Nat} {x : ℚ} (h : HasDigits k x) (hle : k ≤ n) : HasDigits n x := by
  obtain ⟨d, hd, rfl⟩ := h
  exact ⟨d, Nat.lt_of_lt_of_le hd (Nat.pow_le_pow_right (by omega) hle), rfl⟩

/-- A number below a power of ten has no more digits. -/
theorem hasDigits_of_le {d : Scaled} {k : Nat} (hk : 0 < k) (h : d.digits ≤ 10 ^ k) :
    HasDigits k d.value := by
  rcases Nat.lt_or_eq_of_le h with hless | hsame
  · exact ⟨d, hless, rfl⟩
  -- a power of ten has a single digit
  · refine ⟨⟨1, d.exponent + k⟩, Nat.one_lt_pow (by omega) (by omega), ?_⟩
    unfold Scaled.value
    rw [hsame, zpow_add₀ (by norm_num), zpow_natCast]
    push_cast
    ring

/-- A decimal of a few digits is less than the power of ten that has more. -/
theorem value_lt {d : Scaled} {n : Nat} (h : d.digits < 10 ^ n) :
    d.value < 10 ^ ((n : Int) + d.exponent) := by
  have hcast : (d.digits : ℚ) < 10 ^ n := by exact_mod_cast h
  unfold Scaled.value
  rw [zpow_add₀ (by norm_num), zpow_natCast]
  gcongr

/-- A multiple of a power of ten as one of a lesser power. -/
theorem multiple_eq (G : Nat) {i j : Int} (h : i ≤ j) :
    (G : ℚ) * 10 ^ j = ((G * 10 ^ (j - i).toNat : Nat) : ℚ) * 10 ^ i := by
  have hsplit : j = ((j - i).toNat : Int) + i := by omega
  conv_lhs => rw [hsplit, zpow_add₀ (by norm_num), zpow_natCast, ← mul_assoc]
  push_cast
  rfl

section

variable {m : Nat} {q top : Int} {d : Scaled}

/-- Only at the greatest exponent of all is something found where a coarser multiple would do. -/
theorem IsGreatest.exponent_eq (h : IsGreatest m q top d) {G : Nat} {e : Int} (he : d.exponent < e)
    (hG : RoundsTo m q ((G : ℚ) * 10 ^ e)) : d.exponent = top := by
  by_contra hne
  have hless : d.exponent < top := lt_of_le_of_ne h.le hne
  rcases le_total e top with hle | hle
  · exact h.none e he hle G hG
  · rw [multiple_eq G hle] at hG
    exact h.none top hless (le_refl top) _ hG

variable (hm : 0 < m) (h : IsGreatest m q top d) (hlow : (10 : ℚ) ^ top ≤ m * 2 ^ q)
  (hhigh : (m : ℚ) * 2 ^ q ≤ 10 ^ (top + 1))

include hm h in
/-- A number below the leading power of ten rounds to the number only if that power does. -/
theorem IsGreatest.exponent_eq_of_lt (hlow : (10 : ℚ) ^ top ≤ m * 2 ^ q) {y : ℚ}
    (hy : RoundsTo m q y) (hless : y < 10 ^ top) :
    d.exponent = top ∧ RoundsTo m q (((1 : Nat) : ℚ) * 10 ^ top) := by
  have hlead : RoundsTo m q (((1 : Nat) : ℚ) * 10 ^ top) := by
    rw [Nat.cast_one, one_mul]
    exact hy.of_between (roundsTo_self hm q) hless.le hlow
  refine ⟨?_, hlead⟩
  by_contra hne
  exact h.none top (lt_of_le_of_ne h.le hne) (le_refl top) 1 hlead

include hm h hhigh in
theorem IsGreatest.digits_le : d.digits ≤ 10 ^ (top + 1 - d.exponent).toNat := by
  have hle := h.le
  have hsplit : top + 1 = ((top + 1 - d.exponent).toNat : Int) + d.exponent := by omega
  rw [hsplit, zpow_add₀ (by norm_num), zpow_natCast] at hhigh
  have hcast : (10 : ℚ) ^ (top + 1 - d.exponent).toNat =
      ((10 ^ (top + 1 - d.exponent).toNat : Nat) : ℚ) := by norm_num
  rw [hcast] at hhigh
  have hvalue := h.found.le hm hhigh
  have hten : (0 : ℚ) < 10 ^ d.exponent := by positivity
  exact_mod_cast le_of_mul_le_mul_right hvalue hten

include hm h in
/-- Where the leading power of ten rounds to the number, what is found is at least as near. -/
theorem IsGreatest.distance_le (hexponent : d.exponent = top)
    (hlead : RoundsTo m q (((1 : Nat) : ℚ) * 10 ^ top)) :
    |d.value - m * 2 ^ q| ≤ |(10 : ℚ) ^ top - m * 2 ^ q| := by
  rw [← hexponent] at hlead ⊢
  rcases eq_or_ne 1 d.digits with hone | hother
  · have hvalue : d.value = 10 ^ d.exponent := by
      rw [Scaled.value, ← hone, Nat.cast_one, one_mul]
    rw [hvalue]
  · have hpreferred := h.found.nearest hm hlead hother
    rw [Nat.cast_one, one_mul] at hpreferred
    exact hpreferred.le

include hm h hlow hhigh in
/-- What the search finds is the shortest decimal. -/
theorem IsGreatest.isShortest : IsShortest m q d.value := by
  have hle := h.le
  have hdigits := hasDigits_of_le (by omega) (h.digits_le hm hhigh)
  refine ⟨h.found.rounds, ?_, ?_⟩
  -- a decimal with fewer digits would be a multiple of a greater power, or pass the leading one
  · rintro y hy n ⟨d', hd', rfl⟩
    have hpos : 0 < d'.digits := digits_pos_of_roundsTo hm hy
    have hn : 0 < n := by
      rcases Nat.eq_zero_or_pos n with rfl | hn
      · rw [pow_zero] at hd'
        omega
      · exact hn
    refine hdigits.mono ?_
    rcases lt_or_ge d'.value (10 ^ top) with hless | hmore
    · have hexponent := (h.exponent_eq_of_lt hm hlow hy hless).1
      omega
    · rcases lt_or_ge d.exponent d'.exponent with hcoarse | hfine
      · have hexponent := h.exponent_eq hcoarse hy
        omega
      · have hpowers := lt_of_le_of_lt hmore (value_lt hd')
        have hexponents := (zpow_lt_zpow_iff_right₀ (by norm_num)).mp hpowers
        omega
  · intro y hy hsame hne
    obtain ⟨d', hd', rfl⟩ := hsame _ hdigits
    rcases le_or_gt d.exponent d'.exponent with hcoarse | hfine
    · have hmultiple : d'.value = _ := multiple_eq d'.digits hcoarse
      rw [hmultiple] at hy ⊢
      refine h.found.nearest hm hy fun heq => hne ?_
      rw [hmultiple, heq]
      rfl
    -- with as few digits and a lesser exponent it stays below the leading power of ten
    · have hless : d'.value < 10 ^ top :=
        (value_lt hd').trans_le (zpow_le_zpow_right₀ (by norm_num) (by omega))
      obtain ⟨hexponent, hlead⟩ := h.exponent_eq_of_lt hm hlow hy hless
      have hnearer := h.distance_le hm hexponent hlead
      left
      rw [abs_of_nonpos (by linarith : (10 : ℚ) ^ top - m * 2 ^ q ≤ 0)] at hnearer
      rw [abs_of_nonpos (by linarith : d'.value - m * 2 ^ q ≤ 0)]
      linarith

end

/-! ## The shortest decimal -/

/-- Digits without zeros behind them do not end with one. -/
theorem digits_stripZeros_mod {n : Nat} {d : Scaled} (hpos : 0 < d.digits) (h : d.digits < 10 ^ n) :
    (d.stripZeros n).digits % 10 ≠ 0 := by
  induction n generalizing d with
  | zero =>
      rw [pow_zero] at h
      omega
  | succ n ih =>
      unfold Scaled.stripZeros
      split
      · rename_i hzero
        simp only [Bool.and_eq_true, beq_iff_eq] at hzero
        refine ih ?_ ?_
        · change 0 < d.digits / 10
          omega
        · rw [pow_succ] at h
          change d.digits / 10 < 10 ^ n
          omega
      · rename_i hnonzero
        simp only [Bool.and_eq_true, bne_iff_ne, beq_iff_eq, not_and] at hnonzero
        exact hnonzero hpos.ne'

/-- What the search for the shortest decimal finds, before zeros are dropped. -/
theorem exists_isGreatest {m : Nat} (hm : 0 < m) (hsmall : m < 2 ^ 53) (q : Int) :
    ∃ (top : Int) (d : Scaled), shortest m q = d.stripZeros 400 ∧ IsGreatest m q top d ∧
      (10 : ℚ) ^ top ≤ m * 2 ^ q ∧ (m : ℚ) * 2 ^ q ≤ 10 ^ (top + 1) ∧ top - 17 ≤ d.exponent := by
  have hratio : ((m * 2 ^ q.toNat : Nat) : ℚ) / ((2 ^ (-q).toNat : Nat) : ℚ) = m * 2 ^ q := by
    rw [zpow_eq_div_toNat 2 q]
    push_cast
    ring
  obtain ⟨hlow, hhigh⟩ := magnitude_between (a := m * 2 ^ q.toNat) (b := 2 ^ (-q).toNat)
    (by positivity) (by positivity)
  rw [hratio] at hlow hhigh
  generalize htop : magnitude (m * 2 ^ q.toNat) (2 ^ (-q).toNat) - 1 = top at hlow
  have hnext : magnitude (m * 2 ^ q.toNat) (2 ^ (-q).toNat) = top + 1 := by omega
  rw [hnext] at hhigh
  have hfine : (10 : ℚ) ^ 17 * 10 ^ (top - ((17 : Nat) : Int)) ≤ m * 2 ^ q := by
    rw [← zpow_natCast (10 : ℚ) 17, ← zpow_add₀ (by norm_num)]
    have hsum : ((17 : Nat) : Int) + (top - ((17 : Nat) : Int)) = top := by omega
    rw [hsum]
    exact hlow
  obtain ⟨hgreatest, hexponent⟩ :=
    isGreatest_searchFrom hm (by decide : 17 < 18) (rounds_above hm hsmall hfine)
  refine ⟨top, searchFrom m q 18 top, ?_, hgreatest, hlow, hhigh, by omega⟩
  have hne : (m == 0) = false := beq_eq_false_iff_ne.mpr hm.ne'
  unfold shortest
  rw [hne, if_neg Bool.false_ne_true, ← htop]

/-- The decimal that is computed is the shortest one. -/
theorem isShortest_shortest {m : Nat} {q : Int} (hc : IsCanonical m q) :
    IsShortest m q (shortest m q).value := by
  rcases Nat.eq_zero_or_pos m with rfl | hm
  · have hzero : (shortest 0 q).value = 0 := by simp [shortest, Scaled.value]
    have hrounds : RoundsTo 0 q 0 := by
      refine ⟨?_, by positivity, by omega⟩
      rw [Nat.mul_zero, Nat.zero_sub, Nat.cast_zero, zero_mul]
    rw [hzero]
    refine ⟨hrounds, fun y _ n _ => ⟨⟨0, 0⟩, by positivity, by simp [Scaled.value]⟩, ?_⟩
    intro y _ _ hne
    left
    rw [Nat.cast_zero, zero_mul, sub_zero, sub_zero, abs_zero]
    exact abs_pos.mpr hne
  · obtain ⟨top, d, hshortest, hgreatest, hlow, hhigh, _⟩ := exists_isGreatest hm hc.small q
    rw [hshortest, value_stripZeros]
    exact hgreatest.isShortest hm hlow hhigh

/-- The shortest decimal is written without zeros at the end. -/
theorem digits_shortest_mod {m : Nat} {q : Int} (hm : 0 < m) (hsmall : m < 2 ^ 53) :
    (shortest m q).digits % 10 ≠ 0 := by
  obtain ⟨top, d, hshortest, hgreatest, _, hhigh, hexponent⟩ := exists_isGreatest hm hsmall q
  have hpos : 0 < d.digits := digits_pos_of_roundsTo hm hgreatest.found.rounds
  have hdigits := hgreatest.digits_le hm hhigh
  have hlength : (top + 1 - d.exponent).toNat < 400 := by omega
  generalize 400 = n at hshortest hlength
  rw [hshortest]
  exact digits_stripZeros_mod hpos (hdigits.trans_lt (Nat.pow_lt_pow_right (by omega) hlength))

end OperatorBundle.Decimal
