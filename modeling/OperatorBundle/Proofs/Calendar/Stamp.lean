import OperatorBundle.Calendar.Instant
import OperatorBundle.Decimal.Binary64
import OperatorBundle.Proofs.Calendar.Date
import OperatorBundle.Proofs.Text.Bytes

/-!
# What a stamp says

A stamp shows a moment: a date and a time of day.  It is the moment of its instant, counted to the
second, so that stamps are ordered as their instants are (`Instant.stamp_decided`).
-/

namespace OperatorBundle.Calendar

/-! ## Moments -/

/-- A date and a time of day. -/
structure Moment where
  date : Date
  hour : Nat
  minute : Nat
  second : Nat
deriving DecidableEq, Repr

namespace Moment

variable {m m' : Moment}

/-- Is there such a date and time of day? -/
def IsValid (m : Moment) : Prop :=
  m.date.isValid = true ∧ m.hour < 24 ∧ m.minute < 60 ∧ m.second < 60

instance (m : Moment) : Decidable m.IsValid := by
  unfold IsValid
  infer_instance

/-- Has the year of a moment four digits at most? -/
def HasShortYear (m : Moment) : Prop := 0 ≤ m.date.year ∧ m.date.year ≤ 9999

instance (m : Moment) : Decidable m.HasShortYear := by
  unfold HasShortYear
  infer_instance

/-- The seconds from the beginning of 1970 to a moment. -/
def seconds (m : Moment) : Int :=
  ((m.date.elapsed : Int) - Date.epoch.elapsed) * 86400 +
    (3600 * m.hour + 60 * m.minute + m.second : Nat)

/-- The first moment of the year zero. -/
def first : Moment := ⟨⟨0, 1, 1⟩, 0, 0, 0⟩

/-- The last moment of the year 9999. -/
def last : Moment := ⟨⟨9999, 12, 31⟩, 23, 59, 59⟩

/-- Is one moment before another, the greater parts deciding first? -/
def Precedes (m m' : Moment) : Prop :=
  m.date.year < m'.date.year ∨ m.date.year = m'.date.year ∧
    (m.date.month < m'.date.month ∨ m.date.month = m'.date.month ∧
      (m.date.day < m'.date.day ∨ m.date.day = m'.date.day ∧
        (m.hour < m'.hour ∨ m.hour = m'.hour ∧
          (m.minute < m'.minute ∨ m.minute = m'.minute ∧ m.second < m'.second))))

/-- Of two moments one precedes the other, or they are the same. -/
theorem precedes_cases (m m' : Moment) : m.Precedes m' ∨ m = m' ∨ m'.Precedes m := by
  obtain ⟨⟨year, month, day⟩, hour, minute, second⟩ := m
  obtain ⟨⟨year', month', day'⟩, hour', minute', second'⟩ := m'
  simp only [Precedes, Moment.mk.injEq, Date.mk.injEq]
  omega

end Moment

/-! ## The order of moments -/

/-- A later year has more days in front of it. -/
theorem daysBeforeYear_mono {year later : Nat} (h : year ≤ later) :
    daysBeforeYear year ≤ daysBeforeYear later := by
  induction h with
  | refl => exact Nat.le_refl _
  | step _ ih => exact Nat.le_trans ih (Nat.le_add_right _ _)

/-- A later month has more days of its year in front of it. -/
theorem daysBeforeMonth_mono (year : Int) {month later : Nat} (h : month ≤ later) :
    daysBeforeMonth year month ≤ daysBeforeMonth year later := by
  induction h with
  | refl => exact Nat.le_refl _
  | @step later _ ih =>
      refine Nat.le_trans ih ?_
      cases later with
      | zero => exact Nat.le_refl _
      | succ later => exact Nat.le_add_right _ _

/-- No month has more than thirty-one days. -/
theorem daysOfMonth_le (year : Int) (month : Nat) : daysOfMonth year month ≤ 31 := by
  unfold daysOfMonth
  split
  · split <;> decide
  all_goals decide

/-- In front of the next month there are the days of this one more. -/
theorem daysBeforeMonth_succ (year : Int) {month : Nat} (hlow : 1 ≤ month) :
    daysBeforeMonth year (month + 1) = daysBeforeMonth year month + daysOfMonth year month := by
  cases month with
  | zero => omega
  | succ month => rfl

/-- The months up to December make up the year. -/
theorem daysBeforeMonth_add_le (year : Int) {month : Nat} (hlow : 1 ≤ month) (hhigh : month ≤ 12) :
    daysBeforeMonth year month + daysOfMonth year month ≤ daysOfYear year := by
  have hyear : daysBeforeMonth year 13 = daysOfYear year := by
    cases hleap : isLeap year <;> simp [daysBeforeMonth, daysOfMonth, daysOfYear, hleap]
  rw [← hyear, ← daysBeforeMonth_succ year hlow]
  exact daysBeforeMonth_mono year (Nat.succ_le_succ hhigh)

/-- The days of a year up to one of its days. -/
theorem Date.elapsed_bounds {d : Date} (hvalid : d.isValid = true) (hyear : 0 ≤ d.year) :
    daysBeforeYear d.year.toNat ≤ d.elapsed ∧ d.elapsed < daysBeforeYear (d.year.toNat + 1) := by
  obtain ⟨hlow, hhigh, hday, hday'⟩ := isValid_iff.mp hvalid
  have hwhole := daysBeforeMonth_add_le d.year hlow hhigh
  rw [daysBeforeYear, Int.toNat_of_nonneg hyear]
  unfold elapsed
  omega

/-- A later date has more days before it. -/
theorem Date.elapsed_lt {d d' : Date} (hvalid : d.isValid = true) (hvalid' : d'.isValid = true)
    (hyear : 0 ≤ d.year)
    (h : d.year < d'.year ∨ d.year = d'.year ∧
      (d.month < d'.month ∨ d.month = d'.month ∧ d.day < d'.day)) : d.elapsed < d'.elapsed := by
  obtain ⟨hlow, _, hday, hday'⟩ := isValid_iff.mp hvalid
  rcases h with hlt | ⟨heq, hlt | ⟨heq', hlt⟩⟩
  · have hyears : daysBeforeYear (d.year.toNat + 1) ≤ daysBeforeYear d'.year.toNat :=
      daysBeforeYear_mono (by omega)
    have hbefore := (elapsed_bounds hvalid hyear).2
    have hafter := (elapsed_bounds hvalid' (by omega)).1
    omega
  · unfold elapsed
    have hmonths := daysBeforeMonth_mono d.year (Nat.succ_le_of_lt hlt)
    rw [Nat.succ_eq_add_one, daysBeforeMonth_succ d.year hlow] at hmonths
    rw [← heq]
    omega
  · unfold elapsed
    rw [← heq, ← heq']
    omega

/-- The days before the year zero have lesser numbers. -/
theorem Date.dayNumber_lt {d : Date} (hvalid : d.isValid = true) (hyear : d.year < 0) :
    d.dayNumber < -719528 := by
  obtain ⟨hlow, hhigh, hday, hday'⟩ := isValid_iff.mp hvalid
  have hlate : ¬ d.month ≤ 2 → ((d.month : Int) + 9) % 12 ≤ 9 := by omega
  obtain ⟨marchYear, hmarch⟩ : ∃ marchYear, (if d.month ≤ 2 then d.year - 1 else d.year) = marchYear :=
    ⟨_, rfl⟩
  obtain ⟨_, hle, hplace, _⟩ := dayOfYear_bounds d.year hlow hhigh hday hday'
  have heras := daysOfEras_eq marchYear
  have hleaps : marchYear < 0 → marchYear / 4 - marchYear / 100 + marchYear / 400 < 0 := by omega
  rw [dayNumber_of_era (hmarch.trans (Int.mul_ediv_add_emod marchYear 400).symm) (by omega) (by omega)]
  generalize marchYear / 4 - marchYear / 100 + marchYear / 400 = leaps at *
  by_cases hearly : d.month ≤ 2
  · rw [if_pos hearly] at hmarch
    omega
  · have hplace' := hlate hearly
    rw [if_neg hearly] at hmarch
    omega

namespace Moment

variable {m m' : Moment}

/-- The seconds of a day are fewer than those to the next day. -/
theorem seconds_lt (hvalid : m.IsValid) (hvalid' : m'.IsValid) (hyear : 0 ≤ m.date.year)
    (h : m.Precedes m') : m.seconds < m'.seconds := by
  obtain ⟨hdate, hhour, hminute, hsecond⟩ := hvalid
  obtain ⟨hdate', hhour', hminute', hsecond'⟩ := hvalid'
  unfold seconds
  by_cases hsame : m.date = m'.date
  · unfold Precedes at h
    rw [hsame] at h ⊢
    omega
  · have hdays : m.date.elapsed < m'.date.elapsed := by
      refine Date.elapsed_lt hdate hdate' hyear ?_
      have hne : ¬ (m.date.year = m'.date.year ∧ m.date.month = m'.date.month ∧
          m.date.day = m'.date.day) := by
        intro heq
        apply hsame
        cases hd : m.date
        cases hd' : m'.date
        rw [hd, hd'] at heq
        simp only at heq
        rw [heq.1, heq.2.1, heq.2.2]
      unfold Precedes at h
      omega
    omega

/-- The first moment that is shown with four digits, in seconds. -/
theorem first_seconds : first.seconds = -719528 * 86400 := by
  unfold seconds
  rw [elapsed_epoch]
  rfl

/-- The last moment that is shown with four digits, in seconds. -/
theorem last_seconds : last.seconds = 2932897 * 86400 - 1 := by
  have hdays : ∀ year : Nat, year = 9999 → (daysBeforeYear year : Int) = 3652060 := by
    intro year hyear
    rw [daysBeforeYear_eq, hyear]
    rfl
  unfold seconds
  rw [elapsed_epoch, Date.elapsed, Int.natCast_add, Int.natCast_add, hdays last.date.year.toNat rfl]
  decide

end Moment

/-! ## Numbers of a fixed width -/

/-- Is this a number in decimal digits, with zeros in front up to a width? -/
structure IsNumber (width n : Nat) (text : List Char) : Prop where
  length : text.length = width
  digits : ∀ c ∈ text, c.isDigit = true
  value : Nat.ofDigitChars 10 text 0 = n

/-- A padded number is written with as many digits as it must have. -/
theorem isNumber_padded {width n : Nat} (hwidth : 0 < width) (h : n < 10 ^ width) :
    IsNumber width n (padded width n).toList := by
  have hshort : (Nat.toDigits 10 n).length ≤ width :=
    (Nat.length_toDigits_le_iff (by decide) hwidth).mpr h
  have htext : (padded width n).toList =
      List.replicate (width - (Nat.toDigits 10 n).length) '0' ++ Nat.toDigits 10 n :=
    String.toList_ofList
  rw [htext]
  constructor
  · rw [List.length_append, List.length_replicate]
    omega
  · intro c hc
    rcases List.mem_append.mp hc with hzero | hdigit
    · rw [(List.mem_replicate.mp hzero).2]
      rfl
    · exact Nat.isDigit_of_mem_toDigits (by decide) (by decide) hdigit
  · rw [Nat.ofDigitChars_append, Nat.ofDigitChars_replicate_zero, Nat.mul_zero,
      Nat.ofDigitChars_ten_toDigits]

/-- The first digit counts for the power of ten that belongs to its place. -/
theorem ofDigitChars_cons_eq (c : Char) (text : List Char) :
    Nat.ofDigitChars 10 (c :: text) 0 =
      10 ^ text.length * (c.toNat - '0'.toNat) + Nat.ofDigitChars 10 text 0 := by
  rw [Nat.ofDigitChars_cons, Nat.mul_zero, Nat.zero_add, Nat.ofDigitChars_eq_ofDigitChars_zero]

/-- Decimal digits lie between zero and nine. -/
theorem digit_bounds {c : Char} (h : c.isDigit = true) : '0'.toNat ≤ c.toNat ∧ c.toNat ≤ '9'.toNat := by
  unfold Char.isDigit at h
  rw [Bool.and_eq_true, decide_eq_true_eq, decide_eq_true_eq] at h
  exact h

/-- Digits make up less than the next power of ten. -/
theorem ofDigitChars_lt {text : List Char} (h : ∀ c ∈ text, c.isDigit = true) :
    Nat.ofDigitChars 10 text 0 < 10 ^ text.length := by
  induction text with
  | nil => exact Nat.one_pos
  | cons c text ih =>
      have hrest := ih fun d hd => h d (List.mem_cons_of_mem c hd)
      have hc : c.toNat - '0'.toNat ≤ 9 := Nat.sub_le_sub_right (digit_bounds (h c List.mem_cons_self)).2 _
      have hplace := Nat.mul_le_mul_left (10 ^ text.length) hc
      rw [ofDigitChars_cons_eq, List.length_cons, Nat.pow_succ]
      omega

/-- Of as many digits those of the lesser number come first. -/
theorem lt_iff_ofDigitChars_lt {a b : List Char} (hlength : a.length = b.length)
    (ha : ∀ c ∈ a, c.isDigit = true) (hb : ∀ c ∈ b, c.isDigit = true) :
    a < b ↔ Nat.ofDigitChars 10 a 0 < Nat.ofDigitChars 10 b 0 := by
  induction a generalizing b with
  | nil =>
      rw [List.length_nil, eq_comm, List.length_eq_zero_iff] at hlength
      rw [hlength]
      exact iff_of_false (List.lt_irrefl []) (Nat.lt_irrefl _)
  | cons x a ih =>
      obtain ⟨y, b, rfl⟩ := List.exists_cons_of_length_eq_add_one hlength.symm
      rw [List.length_cons, List.length_cons, Nat.add_right_cancel_iff] at hlength
      have ha' : ∀ c ∈ a, c.isDigit = true := fun c hc => ha c (List.mem_cons_of_mem x hc)
      have hb' : ∀ c ∈ b, c.isDigit = true := fun c hc => hb c (List.mem_cons_of_mem y hc)
      have hx := (digit_bounds (ha x List.mem_cons_self)).1
      have hy := (digit_bounds (hb y List.mem_cons_self)).1
      have hfew := ofDigitChars_lt ha'
      have hfew' := ofDigitChars_lt hb'
      rw [List.cons_lt_cons_iff, ih hlength ha' hb', ofDigitChars_cons_eq, ofDigitChars_cons_eq]
      rw [hlength] at hfew ⊢
      have hchar : x < y ↔ x.toNat < y.toNat := Iff.rfl
      rw [hchar, ← Char.toNat_inj]
      -- a greater first digit cannot be made up for by those behind it
      rcases Nat.lt_trichotomy x.toNat y.toNat with hlt | heq | hgt
      · have hplace := Nat.mul_le_mul_left (10 ^ b.length)
          (show x.toNat - '0'.toNat + 1 ≤ y.toNat - '0'.toNat by omega)
        rw [Nat.mul_add, Nat.mul_one] at hplace
        omega
      · rw [heq]
        omega
      · have hplace := Nat.mul_le_mul_left (10 ^ b.length)
          (show y.toNat - '0'.toNat + 1 ≤ x.toNat - '0'.toNat by omega)
        rw [Nat.mul_add, Nat.mul_one] at hplace
        omega

/-- What follows does not matter once texts of one length differ. -/
theorem append_lt_append {a b : List Char} (hlength : a.length = b.length) (h : a < b)
    (more more' : List Char) : a ++ more < b ++ more' := by
  induction h with
  | nil => cases hlength
  | cons _ ih =>
      rw [List.length_cons, List.length_cons, Nat.add_right_cancel_iff] at hlength
      exact List.Lex.cons (ih hlength)
  | rel h => exact List.Lex.rel h

section

variable {width n n' : Nat} {text text' : List Char}

/-- Numbers of one width are ordered as they are written. -/
theorem IsNumber.lt_iff (h : IsNumber width n text) (h' : IsNumber width n' text') :
    text < text' ↔ n < n' := by
  rw [lt_iff_ofDigitChars_lt (h.length.trans h'.length.symm) h.digits h'.digits, h.value, h'.value]

/-- A number has one text of a width. -/
theorem IsNumber.unique (h : IsNumber width n text) (h' : IsNumber width n text') : text = text' := by
  apply List.le_antisymm
  · intro hlt
    exact Nat.lt_irrefl n ((h'.lt_iff h).mp hlt)
  · intro hlt
    exact Nat.lt_irrefl n ((h.lt_iff h').mp hlt)

/-- Which of two texts comes first is told by the first numbers in them, or else by what follows. -/
theorem IsNumber.append_lt {more more' : List Char} (h : IsNumber width n text)
    (h' : IsNumber width n' text') (hlt : n < n' ∨ n = n' ∧ more < more') :
    text ++ more < text' ++ more' := by
  rcases hlt with hlt | ⟨rfl, hmore⟩
  · exact append_lt_append (h.length.trans h'.length.symm) ((h.lt_iff h').mpr hlt) more more'
  · rw [h.unique h']
    exact List.append_left_lt hmore

end

/-! ## What is shown -/

/-- Does a text show a moment, as `2024-01-02T03:04:05Z` does? -/
def Shows (text : String) (m : Moment) : Prop :=
  ∃ year month day hour minute second : List Char,
    text.toList = year ++ '-' :: (month ++ '-' :: (day ++ 'T' :: (hour ++ ':' ::
      (minute ++ ':' :: (second ++ ['Z']))))) ∧
    IsNumber 4 m.date.year.toNat year ∧ IsNumber 2 m.date.month month ∧
    IsNumber 2 m.date.day day ∧ IsNumber 2 m.hour hour ∧ IsNumber 2 m.minute minute ∧
    IsNumber 2 m.second second

section

variable {m m' : Moment} {text text' : String}

/-- A moment is shown with twenty characters. -/
theorem Shows.length (h : Shows text m) : text.length = 20 := by
  obtain ⟨year, month, day, hour, minute, second, htext, hyear, hmonth, hday, hhour, hminute,
    hsecond⟩ := h
  rw [← String.length_toList, htext]
  simp only [List.length_append, List.length_cons, List.length_nil, hyear.length, hmonth.length,
    hday.length, hhour.length, hminute.length, hsecond.length]

/-- There is one text that shows a moment. -/
theorem Shows.unique (h : Shows text m) (h' : Shows text' m) : text = text' := by
  obtain ⟨year, month, day, hour, minute, second, htext, hy, hmo, hd, hh, hmi, hs⟩ := h
  obtain ⟨year', month', day', hour', minute', second', htext', hy', hmo', hd', hh', hmi', hs'⟩ := h'
  apply String.toList_inj.mp
  rw [htext, htext', hy.unique hy', hmo.unique hmo', hd.unique hd', hh.unique hh', hmi.unique hmi',
    hs.unique hs']

/-- The text of an earlier moment comes first. -/
theorem Shows.lt (h : Shows text m) (h' : Shows text' m') (hyear : 0 ≤ m.date.year)
    (hyear' : 0 ≤ m'.date.year) (hprecedes : m.Precedes m') : text < text' := by
  obtain ⟨year, month, day, hour, minute, second, htext, hy, hmo, hd, hh, hmi, hs⟩ := h
  obtain ⟨year', month', day', hour', minute', second', htext', hy', hmo', hd', hh', hmi', hs'⟩ := h'
  rw [String.lt_iff, htext, htext']
  -- the parts are compared one after the other, each if those before it agree
  refine hy.append_lt hy' ?_
  rcases hprecedes with hlt | ⟨heq, hprecedes⟩
  · exact Or.inl (by omega)
  refine Or.inr ⟨by rw [heq], List.Lex.cons (hmo.append_lt hmo' ?_)⟩
  rcases hprecedes with hlt | ⟨heq, hprecedes⟩
  · exact Or.inl hlt
  refine Or.inr ⟨heq, List.Lex.cons (hd.append_lt hd' ?_)⟩
  rcases hprecedes with hlt | ⟨heq, hprecedes⟩
  · exact Or.inl hlt
  refine Or.inr ⟨heq, List.Lex.cons (hh.append_lt hh' ?_)⟩
  rcases hprecedes with hlt | ⟨heq, hprecedes⟩
  · exact Or.inl hlt
  refine Or.inr ⟨heq, List.Lex.cons (hmi.append_lt hmi' ?_)⟩
  rcases hprecedes with hlt | ⟨heq, hlt⟩
  · exact Or.inl hlt
  exact Or.inr ⟨heq, List.Lex.cons (hs.append_lt hs' (Or.inl hlt))⟩

end

/-! ## Instants -/

namespace Instant

variable {t u : Instant}

/-- Does an instant lie in the years from zero to 9999, and in no inserted second? -/
structure IsOrdinary (t : Instant) : Prop where
  first_le : Moment.first.seconds ≤ t.seconds
  le_last : t.seconds ≤ Moment.last.seconds
  notInserted : t.nanoseconds < 1000000000

/-- The date and time of day of an instant. -/
def moment (t : Instant) : Moment :=
  ⟨t.date, t.secondOfDay / 3600, t.secondOfDay / 60 % 60, t.secondOfDay % 60⟩

theorem secondOfDay_lt (t : Instant) : t.secondOfDay < 86400 := by
  unfold secondOfDay secondsOfDay
  omega

/-- Every instant lies in a moment that exists. -/
theorem isValid_moment (t : Instant) : t.moment.IsValid := by
  have hday := t.secondOfDay_lt
  refine ⟨(Date.dayNumber_ofDayNumber _).1, ?_, ?_, ?_⟩
  · show t.secondOfDay / 3600 < 24
    omega
  · show t.secondOfDay / 60 % 60 < 60
    omega
  · show t.secondOfDay % 60 < 60
    omega

/-- The date of an instant is that of its day. -/
theorem dayNumber_date (t : Instant) : t.date.dayNumber = t.seconds / 86400 :=
  (Date.dayNumber_ofDayNumber _).2

/-- A year of four digits is padded. -/
theorem yearText_eq {year : Int} (hlow : 0 ≤ year) (hhigh : year ≤ 9999) :
    yearText year = padded 4 year.toNat := by
  have hnat : year.natAbs = year.toNat := by omega
  unfold yearText
  rw [if_neg (by omega), if_neg (by omega), hnat]

/-- The stamp of an instant shows its moment, if four digits are enough for the year. -/
theorem shows_stamp (hyear : t.moment.HasShortYear) (hnano : t.nanoseconds < 1000000000) :
    Shows t.stamp t.moment := by
  obtain ⟨hdate, hhour, hminute, hsecond⟩ := t.isValid_moment
  obtain ⟨_, hmonth, _, hday⟩ := Date.isValid_iff.mp hdate
  have hlength := daysOfMonth_le t.moment.date.year t.moment.date.month
  have hinserted : t.nanoseconds / 1000000000 = 0 := Nat.div_eq_of_lt hnano
  refine ⟨_, _, _, _, _, _, ?_, isNumber_padded (by decide) ?_, isNumber_padded (by decide) ?_,
    isNumber_padded (by decide) ?_, isNumber_padded (by decide) ?_, isNumber_padded (by decide) ?_,
    isNumber_padded (by decide) ?_⟩
  · have hmarks : "-".toList = ['-'] ∧ "T".toList = ['T'] ∧ ":".toList = [':'] ∧
        "Z".toList = ['Z'] := by decide
    have hfour : yearText t.date.year = padded 4 t.moment.date.year.toNat := yearText_eq hyear.1 hyear.2
    unfold stamp
    simp only [String.toList_append, hmarks, hfour, hinserted, Nat.add_zero, List.append_assoc, List.cons_append, List.nil_append]
    rfl
  · have hlow := hyear.1
    have hhigh := hyear.2
    omega
  all_goals omega

/-- The seconds of a moment are those of the instant. -/
theorem seconds_moment (hyear : 0 ≤ t.date.year) : t.moment.seconds = t.seconds := by
  have hdays : (t.date.elapsed : Int) - Date.epoch.elapsed = t.seconds / 86400 :=
    (Date.dayNumber_eq t.isValid_moment.1 hyear).symm.trans t.dayNumber_date
  have hpart : (t.secondOfDay : Int) = t.seconds % 86400 := by
    unfold secondOfDay secondsOfDay
    omega
  unfold Moment.seconds
  simp only [moment, hdays]
  omega

/-- The year of an ordinary instant has four digits at most. -/
theorem IsOrdinary.hasShortYear (h : t.IsOrdinary) : t.moment.HasShortYear := by
  obtain ⟨hfirst, hlast, _⟩ := h
  have hvalid : t.date.isValid = true := t.isValid_moment.1
  have hnumber := t.dayNumber_date
  rw [Moment.first_seconds] at hfirst
  rw [Moment.last_seconds] at hlast
  have hlow : 0 ≤ t.date.year := by
    by_contra hneg
    have hearly := Date.dayNumber_lt hvalid (Int.lt_of_not_ge hneg)
    omega
  refine ⟨hlow, ?_⟩
  show t.date.year ≤ 9999
  by_contra hlate
  have hcount := Date.dayNumber_eq hvalid hlow
  have hafter := (Date.elapsed_bounds hvalid hlow).1
  have hyears := daysBeforeYear_mono (show 10000 ≤ t.date.year.toNat by omega)
  have hclosed : (daysBeforeYear 10000 : Int) = 3652425 := daysBeforeYear_eq 10000
  rw [elapsed_epoch] at hcount
  omega

/-- The moments of two instants are ordered as their seconds are. -/
theorem precedes_iff (ht : t.moment.HasShortYear) (hu : u.moment.HasShortYear) :
    t.moment.Precedes u.moment ↔ t.seconds < u.seconds := by
  have hforward : ∀ {t u : Instant}, t.moment.HasShortYear → u.moment.HasShortYear →
      t.moment.Precedes u.moment → t.seconds < u.seconds := by
    intro t u ht hu hprecedes
    have hlt := Moment.seconds_lt t.isValid_moment u.isValid_moment ht.1 hprecedes
    rwa [seconds_moment ht.1, seconds_moment hu.1] at hlt
  constructor
  · exact hforward ht hu
  · intro hlt
    rcases Moment.precedes_cases t.moment u.moment with hprecedes | heq | hprecedes
    · exact hprecedes
    · have hsame := seconds_moment ht.1
      rw [heq, seconds_moment hu.1] at hsame
      omega
    · have hgt := hforward hu ht hprecedes
      omega

/-- A clock that is set to a date and time of day shows it, and can be set to nothing else. -/
theorem at?_eq {m : Moment} (hyear : m.HasShortYear) :
    at? m.date m.hour m.minute m.second = none ∧ ¬ m.IsValid ∨
      ∃ t, at? m.date m.hour m.minute m.second = some t ∧ m.IsValid ∧ t.moment = m ∧
        t.nanoseconds = 0 := by
  obtain ⟨hlow, hhigh⟩ := hyear
  have hshown : isShownYear m.date.year = true := by
    unfold isShownYear
    rw [Bool.and_eq_true, decide_eq_true_eq, decide_eq_true_eq]
    omega
  unfold at?
  by_cases hvalid : m.IsValid
  · obtain ⟨hdate, hhour, hminute, hsecond⟩ := hvalid
    refine Or.inr ⟨_, if_pos ?_, ⟨hdate, hhour, hminute, hsecond⟩, ?_, rfl⟩
    · simp only [hshown, hdate, Bool.true_and, Bool.and_eq_true, decide_eq_true_eq]
      exact ⟨⟨hhour, hminute⟩, hsecond⟩
    · have hday : ∀ seconds : Nat, seconds < 86400 →
          (m.date.dayNumber * (86400 : Nat) + seconds) / (86400 : Nat) = m.date.dayNumber ∧
            ((m.date.dayNumber * (86400 : Nat) + seconds) % (86400 : Nat)).toNat = seconds := by
        intro seconds hlt
        omega
      obtain ⟨hdays, hrest⟩ := hday (3600 * m.hour + 60 * m.minute + m.second) (by omega)
      unfold moment date secondOfDay secondsOfDay
      simp only [hdays, hrest, Date.ofDayNumber_dayNumber hdate]
      have hparts : (3600 * m.hour + 60 * m.minute + m.second) / 3600 = m.hour ∧
          (3600 * m.hour + 60 * m.minute + m.second) / 60 % 60 = m.minute ∧
          (3600 * m.hour + 60 * m.minute + m.second) % 60 = m.second := by omega
      rw [hparts.1, hparts.2.1, hparts.2.2]
  · refine Or.inl ⟨if_neg ?_, hvalid⟩
    intro hgiven
    simp only [hshown, Bool.true_and, Bool.and_eq_true, decide_eq_true_eq] at hgiven
    exact hvalid ⟨hgiven.1.1.1, hgiven.1.1.2, hgiven.1.2, hgiven.2⟩

/-- What is stamped on an ordinary instant: a valid date and time of day, in twenty characters, which
is as many seconds away from the beginning of 1970 as the instant.  So two stamps are equal if the
instants lie in one second, and their bytes are ordered as the seconds are.  A clock can be set to
each date and time of day that there is, and to nothing else, and then shows it. -/
theorem stamp_decided {m : Moment} (ht : t.IsOrdinary) (hu : u.IsOrdinary) (hm : m.HasShortYear) :
    (t.moment.IsValid ∧ t.moment.HasShortYear ∧ Shows t.stamp t.moment ∧ t.stamp.length = 20 ∧
      t.moment.seconds = t.seconds) ∧
    (t.stamp = u.stamp ↔ t.seconds = u.seconds) ∧
    (Text.bytes t.stamp < Text.bytes u.stamp ↔ t.seconds < u.seconds) ∧
    (at? m.date m.hour m.minute m.second = none ↔ ¬ m.IsValid) ∧
    ∀ now, at? m.date m.hour m.minute m.second = some now → Shows now.stamp m := by
  have hyear := ht.hasShortYear
  have hyear' := hu.hasShortYear
  have hshows := shows_stamp hyear ht.notInserted
  have hshows' := shows_stamp hyear' hu.notInserted
  have hbefore : t.seconds < u.seconds → Text.bytes t.stamp < Text.bytes u.stamp := by
    intro hlt
    have hprecedes := (precedes_iff hyear hyear').mpr hlt
    exact Text.bytes_lt_bytes (hshows.lt hshows' hyear.1 hyear'.1 hprecedes)
  have hafter : u.seconds < t.seconds → Text.bytes u.stamp < Text.bytes t.stamp := by
    intro hlt
    have hprecedes := (precedes_iff hyear' hyear).mpr hlt
    exact Text.bytes_lt_bytes (hshows'.lt hshows hyear'.1 hyear.1 hprecedes)
  have hsame : t.seconds = u.seconds → t.stamp = u.stamp := by
    intro heq
    have hmoment : u.moment = t.moment := by
      unfold moment date secondOfDay
      rw [heq]
    rw [hmoment] at hshows'
    exact hshows.unique hshows'
  refine ⟨⟨t.isValid_moment, hyear, hshows, hshows.length, seconds_moment hyear.1⟩, ?_, ?_, ?_, ?_⟩
  · constructor
    · intro heq
      rw [heq] at hbefore hafter
      rcases Int.lt_trichotomy t.seconds u.seconds with hlt | hseconds | hgt
      · exact absurd (hbefore hlt) (List.lt_irrefl _)
      · exact hseconds
      · exact absurd (hafter hgt) (List.lt_irrefl _)
    · exact hsame
  · constructor
    · intro hlt
      rcases Int.lt_trichotomy t.seconds u.seconds with hseconds | heq | hgt
      · exact hseconds
      · rw [hsame heq] at hlt
        exact absurd hlt (List.lt_irrefl _)
      · exact absurd (hafter hgt) (List.lt_asymm hlt)
    · exact hbefore
  · rcases at?_eq hm with ⟨hnone, hvalid⟩ | ⟨now, hsome, hvalid, _, _⟩
    · exact iff_of_true hnone hvalid
    · rw [hsome]
      exact iff_of_false (Option.some_ne_none now) (not_not_intro hvalid)
  · intro now hnow
    rcases at?_eq hm with ⟨hnone, _⟩ | ⟨now', hsome, _, hmoment, hnano⟩
    · rw [hnone] at hnow
      cases hnow
    · rw [hsome] at hnow
      cases hnow
      have hstamp : Shows now.stamp now.moment :=
        shows_stamp (hmoment ▸ hm) (by rw [hnano]; decide)
      rwa [hmoment] at hstamp

/-- The last nanosecond in front of the epoch is shown, and as earlier than a moment of 2024.  A day
that does not exist gives no instant. -/
theorem stamp_before_epoch :
    Text.bytes (⟨-1, 999999999⟩ : Instant).stamp < Text.bytes (⟨1704164645, 0⟩ : Instant).stamp ∧
      Shows (⟨-1, 999999999⟩ : Instant).stamp (⟨-1, 999999999⟩ : Instant).moment ∧
      at? ⟨1900, 2, 29⟩ 3 4 5 = none := by
  have hbefore : IsOrdinary ⟨-1, 999999999⟩ :=
    ⟨by rw [Moment.first_seconds]; decide, by rw [Moment.last_seconds]; decide, by decide⟩
  have hafter : IsOrdinary ⟨1704164645, 0⟩ :=
    ⟨by rw [Moment.first_seconds]; decide, by rw [Moment.last_seconds]; decide, by decide⟩
  obtain ⟨⟨_, _, hshows, _, _⟩, _, horder, hset, _⟩ :=
    stamp_decided (m := ⟨⟨1900, 2, 29⟩, 3, 4, 5⟩) hbefore hafter (by decide)
  exact ⟨horder.mpr (by decide), hshows, hset.mpr (by decide)⟩

end Instant

end OperatorBundle.Calendar
