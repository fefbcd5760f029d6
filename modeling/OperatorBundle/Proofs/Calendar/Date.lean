import Mathlib.Tactic.Linarith
import OperatorBundle.Calendar.Date

/-!
# Dates and the numbers of days

`Date.elapsed` counts the days from the beginning of the year zero to a date: the days of all years
before its year, of all months before its month, and the days before it in its month.  The number of
a day is this count taken from the beginning of 1970 (`Date.dayNumber_eq`), and dates and their numbers
determine each other (`Date.ofDayNumber_dayNumber`, `Date.dayNumber_ofDayNumber`).
-/

namespace OperatorBundle.Calendar

/-! ## Counting days -/

/-- The number of days of a year. -/
def daysOfYear (year : Int) : Nat := if isLeap year then 366 else 365

/-- The days from the beginning of the year zero to the beginning of a year. -/
def daysBeforeYear : Nat → Nat
  | 0 => 0
  | year + 1 => daysBeforeYear year + daysOfYear year

/-- The days of a year before a month. -/
def daysBeforeMonth (year : Int) : Nat → Nat
  | 0 | 1 => 0
  | month + 1 => daysBeforeMonth year month + daysOfMonth year month

/-- The days from the beginning of the year zero to a date. -/
def Date.elapsed (d : Date) : Nat :=
  daysBeforeYear d.year.toNat + daysBeforeMonth d.year d.month + (d.day - 1)

/-- The first day of 1970. -/
def Date.epoch : Date := ⟨1970, 1, 1⟩

theorem isLeap_iff {year : Int} :
    isLeap year = true ↔ year % 4 = 0 ∧ (year % 100 ≠ 0 ∨ year % 400 = 0) := by
  unfold isLeap
  rw [Bool.or_eq_true, Bool.and_eq_true, beq_iff_eq, bne_iff_ne, beq_iff_eq]
  omega

theorem isLeap_eq_false_iff {year : Int} :
    isLeap year = false ↔ year % 4 ≠ 0 ∨ year % 100 = 0 ∧ year % 400 ≠ 0 := by
  rw [← Bool.not_eq_true, isLeap_iff]
  omega

/-- Every fourth year is a day longer, but of the full centuries only every fourth. -/
theorem leapDays_succ (year : Int) :
    year / 4 - year / 100 + year / 400 =
      (year - 1) / 4 - (year - 1) / 100 + (year - 1) / 400 + if isLeap year then 1 else 0 := by
  cases hleap : isLeap year with
  | true =>
      rw [isLeap_iff] at hleap
      rw [if_pos rfl]
      omega
  | false =>
      rw [isLeap_eq_false_iff] at hleap
      rw [if_neg Bool.false_ne_true]
      omega

theorem daysBeforeYear_eq (year : Nat) :
    (daysBeforeYear year : Int) =
      365 * year + ((year - 1) / 4 - (year - 1) / 100 + (year - 1) / 400) + 1 := by
  induction year with
  | zero => rfl
  | succ year ih =>
      -- the year is a day longer exactly if the count of leap days grows by one
      have hleap := leapDays_succ year
      have hlast : ((year + 1 : Nat) : Int) - 1 = year := by omega
      rw [daysBeforeYear, Int.natCast_add, ih, hlast, daysOfYear]
      cases hyear : isLeap year with
      | true =>
          rw [hyear, if_pos rfl] at hleap
          rw [if_pos rfl]
          push_cast
          linarith
      | false =>
          rw [hyear, if_neg Bool.false_ne_true] at hleap
          rw [if_neg Bool.false_ne_true]
          push_cast
          linarith

theorem elapsed_epoch : Date.epoch.elapsed = 719528 := by
  have hyears : ∀ year : Nat, year = 1970 → daysBeforeYear year = 719528 := by
    intro year hyear
    have hclosed := daysBeforeYear_eq year
    omega
  simp only [Date.elapsed, Date.epoch]
  rw [hyears (Int.toNat 1970) rfl]
  rfl

/-- What is known of a day of the calendar. -/
theorem Date.isValid_iff {d : Date} :
    d.isValid = true ↔ 1 ≤ d.month ∧ d.month ≤ 12 ∧ 1 ≤ d.day ∧ d.day ≤ daysOfMonth d.year d.month := by
  simp only [isValid, Bool.and_eq_true, decide_eq_true_eq, and_assoc]

/-- A month is one of twelve. -/
theorem month_cases {month : Nat} (hlow : 1 ≤ month) (hhigh : month ≤ 12) :
    month = 1 ∨ month = 2 ∨ month = 3 ∨ month = 4 ∨ month = 5 ∨ month = 6 ∨ month = 7 ∨ month = 8 ∨
      month = 9 ∨ month = 10 ∨ month = 11 ∨ month = 12 := by
  omega

/-- The days before a month, told by those before it in a year that begins with March. -/
theorem daysBeforeMonth_eq (year : Int) {month : Nat} (hlow : 1 ≤ month) (hhigh : month ≤ 12) :
    (daysBeforeMonth year month : Int) =
      if month ≤ 2 then (153 * (((month : Int) + 9) % 12) + 2) / 5 - 306
      else (153 * (((month : Int) + 9) % 12) + 2) / 5 + 59 + if isLeap year then 1 else 0 := by
  rcases month_cases hlow hhigh with rfl | rfl | rfl | rfl | rfl | rfl | rfl | rfl | rfl | rfl |
    rfl | rfl <;> cases hleap : isLeap year <;> simp [daysBeforeMonth, daysOfMonth, hleap]

/-- The days of all years before one, counted by periods of 400 years. -/
theorem daysOfEras_eq (year : Int) :
    146097 * (year / 400) + (365 * (year % 400) + year % 400 / 4 - year % 400 / 100) =
      365 * year + (year / 4 - year / 100 + year / 400) := by
  omega

/-- The number of a day is the count of days since the beginning of 1970. -/
theorem Date.dayNumber_eq {d : Date} (hvalid : d.isValid = true) (hyear : 0 ≤ d.year) :
    d.dayNumber = d.elapsed - Date.epoch.elapsed := by
  obtain ⟨year, month, day⟩ := d
  obtain ⟨year, rfl⟩ := Int.eq_ofNat_of_zero_le hyear
  obtain ⟨hlow, hhigh, hday, _⟩ := isValid_iff.mp hvalid
  simp only at hlow hhigh hday
  have hyears := daysBeforeYear_eq year
  have hmonth := daysBeforeMonth_eq year hlow hhigh
  have hleap := leapDays_succ year
  have hbefore : ((day - 1 : Nat) : Int) = day - 1 := Int.natCast_sub hday
  rw [elapsed_epoch]
  simp only [dayNumber, elapsed, Int.toNat_natCast, Int.natCast_add, hbefore]
  push_cast
  -- January and February belong to the year before, if years begin with March
  by_cases hmarch : month ≤ 2
  · have heras := daysOfEras_eq (year - 1)
    rw [if_pos hmarch] at hmonth ⊢
    linarith
  · have heras := daysOfEras_eq year
    rw [if_neg hmarch] at hmonth ⊢
    linarith

/-! ## From numbers to dates -/

/-- Is this day of 400 years the day `day` of their year `year`, if years and days are counted from
zero and years begin with March? -/
structure IsDayOfEra (n year day : Int) : Prop where
  year_nonneg : 0 ≤ year
  year_lt : year < 400
  day_nonneg : 0 ≤ day
  day_le : day ≤ 365
  /-- A leap day is the last of the year before the leap year that begins with March. -/
  leap : day = 365 → (year + 1) % 4 = 0 ∧ ((year + 1) % 100 ≠ 0 ∨ year = 399)
  eq : n = 365 * year + (year / 4 - year / 100) + day

/-- Each day of 400 years is a day of a year. -/
theorem exists_isDayOfEra {n : Int} (hlow : 0 ≤ n) (hhigh : n < 146097) :
    ∃ year day, IsDayOfEra n year day := by
  -- the last day of all, the last of each fourth year and all others are found one after another
  obtain ⟨century, hcentury⟩ : ∃ century, 0 ≤ century ∧ century ≤ 3 ∧ 36524 * century ≤ n ∧
      (n < 36524 * century + 36524 ∨ century = 3 ∧ n = 146096) := by
    by_cases hlast : n = 146096
    · exact ⟨3, by omega⟩
    · exact ⟨n / 36524, by omega⟩
  generalize hrest : n - 36524 * century = rest at *
  obtain ⟨four, hfour⟩ : ∃ four, 0 ≤ four ∧ four ≤ 24 ∧ 1461 * four ≤ rest ∧
      rest ≤ 1461 * four + 1460 := ⟨rest / 1461, by omega⟩
  generalize hlate : rest - 1461 * four = late at *
  obtain ⟨one, hone⟩ : ∃ one, 0 ≤ one ∧ one ≤ 3 ∧ 365 * one ≤ late ∧
      (late < 365 * one + 365 ∨ one = 3 ∧ late = 1460) := by
    by_cases hlast : late = 1460
    · exact ⟨3, by omega⟩
    · exact ⟨late / 365, by omega⟩
  have hhundreds : (100 * century + 4 * four + one) / 100 = century := by omega
  have hfours : (100 * century + 4 * four + one) / 4 = 25 * century + four := by omega
  refine ⟨100 * century + 4 * four + one, late - 365 * one, ?_, ?_, ?_, ?_, ?_, ?_⟩
  · omega
  · omega
  · omega
  · omega
  · intro hday
    omega
  · rw [hhundreds, hfours]
    omega

/-- The year of a day is found by taking from the days before it those of the leap years. -/
theorem IsDayOfEra.year_eq {n year day : Int} (h : IsDayOfEra n year day) :
    (n - n / 1460 + n / 36524 - n / 146096) / 365 = year := by
  obtain ⟨hlow, hhigh, hday, hday', hleap, heq⟩ := h
  generalize hcentury : year / 100 = century at *
  obtain ⟨four, hfour⟩ : ∃ four, four = year % 100 / 4 := ⟨_, rfl⟩
  obtain ⟨one, hone⟩ : ∃ one, one = year % 4 := ⟨_, rfl⟩
  have hyear : year = 100 * century + 4 * four + one := by omega
  have hfours : year / 4 = 25 * century + four := by omega
  have hleap' : day = 365 → one = 3 ∧ (four < 24 ∨ century = 3) := by omega
  have heq' : n = 36524 * century + 1461 * four + 365 * one + day := by omega
  have hbounds : 0 ≤ century ∧ century ≤ 3 ∧ 0 ≤ four ∧ four ≤ 24 ∧ 0 ≤ one ∧ one ≤ 3 := by omega
  clear hleap heq hfours hcentury hfour hone hlow hhigh
  have hcenturies : n / 36524 - n / 146096 = century := by
    by_cases hlast : n = 146096
    · omega
    · have hrest : 1461 * four + 365 * one + day ≤ 36523 := by omega
      omega
  have hyears : n / 1460 =
      25 * century + four + (24 * century + four + 365 * one + day) / 1460 := by omega
  have hlate : (24 * century + four + 365 * one + day) / 1460 = 0 ∧ day ≤ 364 ∨
      (24 * century + four + 365 * one + day) / 1460 = 1 ∧ 1 ≤ day := by omega
  omega

/-- The date of a day whose period of 400 years, year and day in the year are known. -/
theorem Date.ofDayNumber_eq {n era days year day : Int} (hn : n + 719468 = 146097 * era + days)
    (hlow : 0 ≤ days) (hhigh : days < 146097) (h : IsDayOfEra days year day) :
    Date.ofDayNumber n =
      let march := (5 * day + 2) / 153
      let month := if march < 10 then march + 3 else march - 9
      ⟨400 * era + year + (if month ≤ 2 then 1 else 0), month.toNat,
        (day - (153 * march + 2) / 5 + 1).toNat⟩ := by
  have hera : (n + 719468) / 146097 = era := by omega
  have hdays : (n + 719468) % 146097 = days := by omega
  have hday : days - (365 * year + year / 4 - year / 100) = day := by
    have heq := h.eq
    omega
  unfold ofDayNumber
  simp only [hera, hdays, h.year_eq, hday]

/-- The day of a year that begins with March, and the month that it lies in. -/
theorem march_bounds {day : Int} (hlow : 0 ≤ day) (hhigh : day ≤ 365) :
    0 ≤ (5 * day + 2) / 153 ∧ (5 * day + 2) / 153 ≤ 11 ∧
      (153 * ((5 * day + 2) / 153) + 2) / 5 ≤ day ∧
      day < (153 * ((5 * day + 2) / 153 + 1) + 2) / 5 := by
  omega

/-- All months but February have the days that lie between the beginnings of two months. -/
theorem daysOfMonth_eq (year : Int) {month : Nat} (hlow : 1 ≤ month) (hhigh : month ≤ 12)
    (hne : month ≠ 2) :
    (daysOfMonth year month : Int) =
      (153 * (((month : Int) + 9) % 12 + 1) + 2) / 5 - (153 * (((month : Int) + 9) % 12) + 2) / 5 := by
  rcases month_cases hlow hhigh with rfl | rfl | rfl | rfl | rfl | rfl | rfl | rfl | rfl | rfl |
    rfl | rfl
  · rfl
  · exact absurd rfl hne
  all_goals rfl

/-- The number of a day whose year, if it begins with March, lies in a known period of 400 years. -/
theorem Date.dayNumber_of_era {d : Date} {era year : Int}
    (h : (if d.month ≤ 2 then d.year - 1 else d.year) = 400 * era + year) (hlow : 0 ≤ year)
    (hhigh : year < 400) :
    d.dayNumber =
      146097 * era + (365 * year + (year / 4 - year / 100) +
        ((153 * (((d.month : Int) + 9) % 12) + 2) / 5 + (d.day - 1))) - 719468 := by
  have hera : (400 * era + year) / 400 = era := by omega
  have hyear : (400 * era + year) % 400 = year := by omega
  unfold dayNumber
  simp only [h, hera, hyear]
  omega

/-- A month of a year that begins with March is a month of a year that begins with January. -/
theorem exists_month {march : Int} (hlow : 0 ≤ march) (hhigh : march ≤ 11) :
    ∃ month : Nat, (if march < 10 then march + 3 else march - 9) = month ∧ 1 ≤ month ∧
      month ≤ 12 ∧ ((month : Int) + 9) % 12 = march := by
  by_cases hten : march < 10
  · exact ⟨(march + 3).toNat, by rw [if_pos hten]; omega, by omega, by omega, by omega⟩
  · exact ⟨(march - 9).toNat, by rw [if_neg hten]; omega, by omega, by omega, by omega⟩

/-- A year that begins with March and ends in no leap year has 365 days. -/
theorem IsDayOfEra.day_le_of_common {n year day : Int} (h : IsDayOfEra n year day) {era : Int}
    (hcommon : isLeap (400 * era + year + 1) = false) : day ≤ 364 := by
  rw [isLeap_eq_false_iff] at hcommon
  have hlow := h.year_nonneg
  have hhigh := h.year_lt
  have hday : day ≠ 365 := by
    intro hlast
    obtain ⟨hfour, hcentury⟩ := h.leap hlast
    omega
  have hday' := h.day_le
  omega

/-- A day with a number is a day of the calendar, and it has that number. -/
theorem Date.dayNumber_ofDayNumber (n : Int) :
    (Date.ofDayNumber n).isValid = true ∧ (Date.ofDayNumber n).dayNumber = n := by
  obtain ⟨era, hera⟩ : ∃ era, era = (n + 719468) / 146097 := ⟨_, rfl⟩
  obtain ⟨days, hdays⟩ : ∃ days, days = (n + 719468) % 146097 := ⟨_, rfl⟩
  have hn : n + 719468 = 146097 * era + days := by omega
  have hlow : 0 ≤ days := by omega
  have hhigh : days < 146097 := by omega
  obtain ⟨year, day, h⟩ := exists_isDayOfEra hlow hhigh
  obtain ⟨hmarch, hmarch', hbelow, habove⟩ := march_bounds h.day_nonneg h.day_le
  rw [ofDayNumber_eq hn hlow hhigh h]
  generalize (5 * day + 2) / 153 = march at *
  obtain ⟨month, hmonth, hfirst, hlast, hplace⟩ := exists_month hmarch hmarch'
  simp only [hmonth, Int.toNat_natCast]
  generalize hstart : (153 * march + 2) / 5 = start at *
  obtain ⟨dayOfMonth, hdayOfMonth⟩ : ∃ dayOfMonth : Nat, day - start + 1 = dayOfMonth :=
    ⟨(day - start + 1).toNat, by omega⟩
  rw [hdayOfMonth, Int.toNat_natCast]
  constructor
  · refine isValid_iff.mpr ⟨hfirst, hlast, by simp only; omega, ?_⟩
    simp only
    by_cases hfebruary : month = 2
    · -- February ends the year that begins with March, so its last day may be a leap day
      subst hfebruary
      rw [if_pos (by decide)]
      show dayOfMonth ≤ if isLeap (400 * era + year + 1) = true then 29 else 28
      cases hnext : isLeap (400 * era + year + 1) with
      | true =>
          have hday := h.day_le
          rw [if_pos rfl]
          omega
      | false =>
          have hday := h.day_le_of_common hnext
          rw [if_neg Bool.false_ne_true]
          omega
    · have hlength := daysOfMonth_eq (400 * era + year + if (month : Int) ≤ 2 then 1 else 0) hfirst
        hlast hfebruary
      rw [hplace, hstart] at hlength
      omega
  · have hyear : (if month ≤ 2 then 400 * era + year + (if (month : Int) ≤ 2 then 1 else 0) - 1
        else 400 * era + year + (if (month : Int) ≤ 2 then 1 else 0)) = 400 * era + year := by
      by_cases hearly : month ≤ 2
      · rw [if_pos hearly, if_pos (by omega)]
        omega
      · rw [if_neg hearly, if_neg (by omega)]
        omega
    rw [dayNumber_of_era hyear h.year_nonneg h.year_lt]
    simp only [hplace, hstart]
    have heq := h.eq
    omega

/-- A day of a month is a day of the year that begins with March. -/
theorem dayOfYear_bounds (year : Int) {month day : Nat} (hlow : 1 ≤ month) (hhigh : month ≤ 12)
    (hday : 1 ≤ day) (hday' : day ≤ daysOfMonth year month) :
    let march : Int := ((month : Int) + 9) % 12
    let dayOfYear : Int := (153 * march + 2) / 5 + (day - 1)
    0 ≤ dayOfYear ∧ dayOfYear ≤ 365 ∧ (5 * dayOfYear + 2) / 153 = march ∧
      (dayOfYear = 365 → month = 2 ∧ isLeap year = true) := by
  -- February is the last month, and so the only one that the next does not bound
  by_cases hfebruary : month = 2
  · subst hfebruary
    have hlength : daysOfMonth year 2 = if isLeap year = true then 29 else 28 := rfl
    rw [hlength] at hday'
    cases hleap : isLeap year with
    | true =>
        rw [hleap, if_pos rfl] at hday'
        simp only [and_self, implies_true, and_true]
        omega
    | false =>
        rw [hleap, if_neg Bool.false_ne_true] at hday'
        simp only
        omega
  · have hlength := daysOfMonth_eq year hlow hhigh hfebruary
    simp only
    omega

/-- A date is found again by its number. -/
theorem Date.ofDayNumber_dayNumber {d : Date} (hvalid : d.isValid = true) :
    Date.ofDayNumber d.dayNumber = d := by
  obtain ⟨year, month, day⟩ := d
  obtain ⟨hlow, hhigh, hday, hday'⟩ := isValid_iff.mp hvalid
  simp only at hlow hhigh hday hday'
  obtain ⟨hnonneg, hle, hmarch, hleap⟩ := dayOfYear_bounds year hlow hhigh hday hday'
  -- the year that began with the last March, and its place in 400 years
  obtain ⟨marchYear, hyear⟩ : ∃ marchYear, marchYear = if month ≤ 2 then year - 1 else year := ⟨_, rfl⟩
  have hsplit : marchYear = 400 * (marchYear / 400) + marchYear % 400 := by omega
  have hera : IsDayOfEra (365 * (marchYear % 400) + (marchYear % 400 / 4 - marchYear % 400 / 100) +
      ((153 * (((month : Int) + 9) % 12) + 2) / 5 + (day - 1))) (marchYear % 400)
      ((153 * (((month : Int) + 9) % 12) + 2) / 5 + (day - 1)) := by
    refine ⟨by omega, by omega, hnonneg, hle, fun hlast => ?_, rfl⟩
    obtain ⟨rfl, hleap⟩ := hleap hlast
    rw [if_pos (Nat.le_refl 2)] at hyear
    rw [isLeap_iff] at hleap
    omega
  have hnumber := dayNumber_of_era (d := ⟨year, month, day⟩) (hyear.symm.trans hsplit) (by omega)
    (by omega)
  simp only at hnumber
  have hcount := ofDayNumber_eq (eq_sub_iff_add_eq.mp hnumber) (by omega) (by omega) hera
  have hmonth : (if ((month : Int) + 9) % 12 < 10 then ((month : Int) + 9) % 12 + 3
      else ((month : Int) + 9) % 12 - 9) = month := by
    split <;> omega
  have hyears : 400 * (marchYear / 400) + marchYear % 400 + (if (month : Int) ≤ 2 then 1 else 0) =
      year := by
    by_cases hearly : month ≤ 2
    · rw [if_pos hearly] at hyear
      rw [if_pos (by omega)]
      omega
    · rw [if_neg hearly] at hyear
      rw [if_neg (by omega)]
      omega
  rw [hcount, hmarch]
  simp only [hmonth, hyears, Int.toNat_natCast]
  congr 1
  omega

end OperatorBundle.Calendar
