import OperatorBundle.Proofs.Toml.Word

/-!
# Readers of numbers and dates

Where a value ends, all that the grammar says of a number, a date or a time is read, and as what the
grammar says: the readers are tried one after the other, and the text that one of them reads is refused
by those in front.
-/

namespace OperatorBundle.Toml

open Grammar Text

variable {text rest digits : List Char} {c : Char} {base n : Nat}

/-! ## Where a value ends -/

/-- What can stand behind a value and the blanks that follow it. -/
def endings : List Char := ['\n', '\r', '#', ',', ']', '}']

/-- Does a value end here? -/
def Ends (rest : List Char) : Prop := ∃ word, Blanks rest word ∧ ∀ c ∈ word.head?, c ∈ endings

theorem eq_of_isBlank (hc : isBlank c = true) : c = ' ' ∨ c = '\t' :=
  (Bool.or_eq_true_iff.mp hc).imp beq_iff_eq.mp beq_iff_eq.mp

/-- A value is followed by a blank or by what can stand behind it. -/
theorem Ends.stops {p : Char → Bool} (h : Ends rest) (hp : ∀ c ∈ ' ' :: '\t' :: endings, p c = false) :
    Stops p rest := by
  obtain ⟨word, hblanks, hword⟩ := h
  refine hblanks.stops ?_ fun c hc => hp c (List.mem_cons_of_mem _ (List.mem_cons_of_mem _ (hword c hc)))
  intro c hc
  rcases eq_of_isBlank hc with rfl | rfl
  · exact hp _ List.mem_cons_self
  · exact hp _ (List.mem_cons_of_mem _ List.mem_cons_self)

/-- Where a value ends in front of a blank, it ends behind the blank too. -/
theorem Ends.tail (h : Ends (' ' :: rest)) : Ends rest := by
  obtain ⟨word, ⟨blanks, hblanks, heach⟩, hword⟩ := h
  cases blanks with
  | nil =>
      rw [List.nil_append] at hblanks
      rw [← hblanks] at hword
      exact absurd (hword ' ' rfl) (by decide)
  | cons c blanks =>
      cases hblanks
      exact ⟨word, ⟨blanks, rfl, fun d hd => heach d (List.mem_cons_of_mem _ hd)⟩, hword⟩

/-! ## Digits -/

/-- Does a number end here?  Neither a digit of the base nor an underscore follows. -/
def EndsDigits (base : Nat) (rest : List Char) : Prop :=
  Stops (fun c => (digit? base c).isSome || c == '_') rest

/-- An underscore is no digit. -/
theorem digit?_underscore (hbase : base ≤ 16) : (digit? base '_').isSome = false := by
  have hnot : ¬ 16 < base := Nat.not_lt.mpr hbase
  simp [digit?, isDigit, hnot]

/-- Where a number ends no further digits are read. -/
theorem digitsFrom?_of_ends (h : EndsDigits base rest) : digitsFrom? base false rest = some ([], rest) := by
  cases rest with
  | nil => rfl
  | cons c r =>
      have hclass := stops_cons.mp h
      rw [Bool.or_eq_false_iff] at hclass
      unfold digitsFrom?
      rw [hclass.1, hclass.2]
      rfl

/-- A digit is read whether one must come next or not. -/
theorem digitsFrom?_digit (hc : IsDigit base c) (needed : Bool) (text : List Char) :
    digitsFrom? base needed (c :: text) =
      (digitsFrom? base false text).map fun (more, rest) => (c :: more, rest) := by
  conv => lhs; unfold digitsFrom?
  exact if_pos hc

/-- All digits are read where a number ends. -/
theorem digits?_eq (hbase : base ≤ 16) (h : Digits base text digits rest)
    (hrest : EndsDigits base rest) : digits? base text = some (digits, rest) := by
  suffices hfrom : ∀ needed, digitsFrom? base needed text = some (digits, rest) from hfrom true
  induction h with
  | last hc =>
      intro needed
      rw [digitsFrom?_digit hc, digitsFrom?_of_ends hrest]
      rfl
  | next hc _ ih =>
      intro needed
      rw [digitsFrom?_digit hc, ih hrest]
      rfl
  | @apart c text _ _ hc _ ih =>
      intro needed
      have hapart : digitsFrom? base false ('_' :: text) = digitsFrom? base true text := by
        conv => lhs; unfold digitsFrom?
        rw [digit?_underscore hbase]
        rfl
      rw [digitsFrom?_digit hc, hapart, ih hrest]
      rfl

theorem Grammar.Digits.exists_cons (h : Digits base text digits rest) :
    ∃ c r, text = c :: r ∧ IsDigit base c := by
  cases h with
  | last hc => exact ⟨_, _, rfl, hc⟩
  | next hc => exact ⟨_, _, rfl, hc⟩
  | apart hc => exact ⟨_, _, rfl, hc⟩

/-- The digits of base ten are the decimal digits. -/
theorem isDigit_iff : IsDigit 10 c ↔ isDigit c = true := by
  unfold IsDigit digit?
  constructor
  · intro h
    by_contra hnot
    rw [if_neg hnot] at h
    simp only at h
    split at h
    · split at h
      · omega
      · cases h
    · split at h
      · split at h
        · omega
        · cases h
      · cases h
  · intro h
    rw [if_pos h]
    have hbounds : '0'.toNat ≤ c.toNat ∧ c.toNat ≤ '9'.toNat := by
      rw [isDigit, Bool.and_eq_true, decide_eq_true_eq, decide_eq_true_eq] at h
      exact ⟨UInt32.le_iff_toNat_le.mp h.1, UInt32.le_iff_toNat_le.mp h.2⟩
    have hsmall : c.toNat - '0'.toNat < 10 := by
      have h0 : '0'.toNat = 48 := rfl
      have h9 : '9'.toNat = 57 := rfl
      omega
    simp only [hsmall, if_true]
    rfl

/-- All of a whole number is read where a number ends. -/
theorem whole?_eq (h : Whole text digits rest) (hrest : EndsDigits 10 rest) :
    whole? text = some (digits, rest) := by
  cases h with
  | zero => rfl
  | digits hc h =>
      unfold whole?
      split
      · rename_i heq
        cases heq
        exact absurd rfl hc
      · exact digits?_eq (by decide) h hrest

/-- A sign is taken where no second one follows it. -/
theorem sign_eq {negative : Bool} (h : Sign text negative rest)
    (hrest : Stops (fun c => c == '+' || c == '-') rest) : sign text = (negative, rest) := by
  cases h with
  | plus => rfl
  | minus => rfl
  | none =>
      unfold sign
      split
      · exact absurd (stops_cons.mp hrest) (by decide)
      · exact absurd (stops_cons.mp hrest) (by decide)
      · rfl

/-! ## Integers -/

/-- A number of 64 bits is an integer. -/
theorem sized?_eq {n : Int} (h : -2 ^ (63 : Nat) ≤ n ∧ n < 2 ^ (63 : Nat)) : sized? n = some (.integer n) := by
  unfold sized?
  rw [if_pos (by simpa using h)]

/-- Where a value ends, a number in any base does. -/
theorem Ends.endsDigits (h : Ends rest) (hbase : base ≤ 16) : EndsDigits base rest := by
  have hnot : ¬ 16 < base := Nat.not_lt.mpr hbase
  refine h.stops fun c hc => ?_
  simp only [endings, List.mem_cons, List.not_mem_nil, or_false] at hc
  rcases hc with rfl | rfl | rfl | rfl | rfl | rfl | rfl | rfl <;> simp [digit?, isDigit, hnot]

/-! ## Dates and times -/

/-- The reader of numbers of a fixed width finds just these numbers. -/
theorem fixed?_eq_some_iff {width : Nat} :
    fixed? width text = some (n, rest) ↔ Fixed width text n rest := by
  unfold fixed? Fixed
  simp only [Option.bind_eq_bind, Option.bind_eq_some_iff, Option.guard_eq_some', Option.pure_def,
    Option.some.injEq, Prod.mk.injEq, Bool.and_eq_true, beq_iff_eq, List.all_eq_true]
  constructor
  · rintro ⟨_, ⟨hlength, hdigits⟩, rfl, rfl⟩
    exact ⟨text.take width, (List.take_append_drop width text).symm, hlength, hdigits, rfl⟩
  · rintro ⟨digits, rfl, rfl, hdigits, rfl⟩
    have htake : (digits ++ rest).take digits.length = digits := List.take_left
    rw [htake]
    exact ⟨(), ⟨rfl, hdigits⟩, rfl, List.drop_left⟩

theorem behind?_eq_some_iff : behind? c text = some rest ↔ text = c :: rest := by
  cases text with
  | nil => exact iff_of_false nofun nofun
  | cons d r =>
      rw [behind?, Option.ite_none_right_eq_some, beq_iff_eq, List.cons.injEq, Option.some.injEq,
        eq_comm]

/-- The reader of dates finds just the dates that exist. -/
theorem date?_eq_some_iff : date? text = some rest ↔ Date text rest := by
  unfold date?
  simp only [Option.bind_eq_bind, Option.bind_eq_some_iff, Option.guard_eq_some', Option.pure_def,
    Option.some.injEq, Prod.exists, fixed?_eq_some_iff, behind?_eq_some_iff, Bool.and_eq_true,
    decide_eq_true_eq]
  constructor
  · rintro ⟨year, _, hyear, _, rfl, month, _, hmonth, _, rfl, day, _, hday, _, hbounds, rfl⟩
    exact .mk hyear hmonth hday hbounds.1.1 ⟨hbounds.1.2, hbounds.2⟩
  · rintro ⟨hyear, hmonth, hday, hmonths, hdays⟩
    exact ⟨_, _, hyear, _, rfl, _, _, hmonth, _, rfl, _, _, hday, (), ⟨⟨hmonths, hdays.1⟩, hdays.2⟩, rfl⟩

/-- The reader of hours and minutes finds just these. -/
theorem hourMinute?_eq_some_iff : hourMinute? text = some rest ↔ HourMinute text rest := by
  unfold hourMinute?
  simp only [Option.bind_eq_bind, Option.bind_eq_some_iff, Option.guard_eq_some', Option.pure_def,
    Option.some.injEq, Prod.exists, fixed?_eq_some_iff, behind?_eq_some_iff, Bool.and_eq_true,
    decide_eq_true_eq]
  constructor
  · rintro ⟨hour, _, hhour, _, rfl, minute, _, hminute, _, hbounds, rfl⟩
    exact .mk hhour hminute hbounds.1 hbounds.2
  · rintro ⟨hhour, hminute, hhours, hminutes⟩
    exact ⟨_, _, hhour, _, rfl, _, _, hminute, (), ⟨hhours, hminutes⟩, rfl⟩

/-- What follows the digits is what follows the number. -/
theorem Fixed.dropWhile_eq {width : Nat} (h : Fixed width text n (c :: rest))
    (hc : isDigit c = false) : text.dropWhile isDigit = c :: rest := by
  obtain ⟨digits, rfl, _, hdigits, _⟩ := h
  exact dropWhile_append hdigits (stops_cons.mpr hc)

/-- What is read as a time is one. -/
theorem time_of_time? (h : time? text = some rest) : Time text rest := by
  unfold time? at h
  simp only [Option.bind_eq_bind, Option.bind_eq_some_iff, Option.guard_eq_some', Option.pure_def,
    Prod.exists, hourMinute?_eq_some_iff, fixed?_eq_some_iff, behind?_eq_some_iff] at h
  obtain ⟨_, hminute, _, rfl, second, stop, hsecond, _, hseconds, h⟩ := h
  split at h
  · rename_i d s
    split at h
    · rename_i hd
      cases h
      refine .mk hminute hsecond hseconds ?_
      have hdigits : ∀ e ∈ d :: s.takeWhile isDigit, isDigit e = true :=
        List.forall_mem_cons.mpr ⟨hd, fun _ => of_mem_takeWhile⟩
      have hfraction := Fraction.some (List.cons_ne_nil d _) hdigits (s.dropWhile isDigit)
      rwa [List.cons_append, List.takeWhile_append_dropWhile] at hfraction
    · cases h
      exact .mk hminute hsecond hseconds (.none _)
  · cases h
    exact .mk hminute hsecond hseconds (.none _)

/-- All of a time is read where neither a digit nor a point follows. -/
theorem time?_eq (h : Time text rest) (hrest : Stops (fun c => isDigit c || c == '.') rest) :
    time? text = some rest := by
  obtain ⟨hminute, hsecond, hseconds, hfraction⟩ := h
  unfold time?
  simp only [Option.bind_eq_bind, Option.bind_eq_some_iff, Option.guard_eq_some', Option.pure_def,
    Prod.exists, hourMinute?_eq_some_iff, fixed?_eq_some_iff, behind?_eq_some_iff]
  refine ⟨_, hminute, _, rfl, _, _, hsecond, (), hseconds, ?_⟩
  cases hfraction with
  | none =>
      split
      · exact absurd (stops_cons.mp hrest) (by decide)
      · rfl
  | @some digits hne hdigits =>
      obtain ⟨d, more, rfl⟩ := List.exists_cons_of_ne_nil hne
      obtain ⟨hd, hmore⟩ := List.forall_mem_cons.mp hdigits
      simp only [List.cons_append, hd, if_true]
      rw [dropWhile_append hmore (hrest.mono fun c hc => by rw [hc]; rfl)]

/-- All of an offset is read where a value ends. -/
theorem offset?_eq (h : Offset text rest) (hrest : Ends rest) : offset? text = some rest := by
  cases h with
  | none =>
      have hstop : Stops (fun c => c == 'Z' || c == 'z' || c == '+' || c == '-') text :=
        hrest.stops (by decide)
      unfold offset?
      split
      · have hclass := stops_cons.mp hstop
        simp only [Bool.or_eq_false_iff] at hclass
        simp only [hclass.1.1.1, hclass.1.1.2, hclass.1.2, hclass.2]
        rfl
      · rfl
  | zero hmark =>
      rcases hmark with rfl | rfl <;> rfl
  | apart hmark hminute =>
      have hread := hourMinute?_eq_some_iff.mpr hminute
      rcases hmark with rfl | rfl <;> exact hread

/-- A date begins with four digits and a hyphen. -/
theorem Grammar.Date.exists_fixed (h : Date text rest) : ∃ n r, Fixed 4 text n ('-' :: r) := by
  obtain ⟨hyear, _⟩ := h
  exact ⟨_, _, hyear⟩

/-- A time begins with two digits and a colon. -/
theorem Grammar.Time.exists_fixed (h : Time text rest) : ∃ n r, Fixed 2 text n (':' :: r) := by
  obtain ⟨⟨hhour, _⟩, _⟩ := h
  exact ⟨_, _, hhour⟩

/-- Does a date or a time begin here?  Behind its first digits a date has a hyphen and a time a
colon. -/
def BeginsDateTime (text : List Char) : Prop :=
  ∃ c r, text.head?.any isDigit = true ∧ text.dropWhile isDigit = c :: r ∧ (c = '-' ∨ c = ':')

theorem Fixed.beginsDateTime {width : Nat} (h : Fixed (width + 1) text n (c :: rest))
    (hc : c = '-' ∨ c = ':') : BeginsDateTime text := by
  have hdrop : text.dropWhile isDigit = c :: rest :=
    Fixed.dropWhile_eq h (by rcases hc with rfl | rfl <;> decide)
  obtain ⟨digits, rfl, hlength, hdigits, _⟩ := h
  obtain ⟨d, more, rfl⟩ := List.exists_cons_of_length_eq_add_one hlength
  exact ⟨c, rest, hdigits d List.mem_cons_self, hdrop, hc⟩

/-- What is read as a date or a time begins like one. -/
theorem beginsDateTime_of_dateTime? (h : dateTime? text = some rest) : BeginsDateTime text := by
  unfold dateTime? at h
  split at h
  · obtain ⟨n, r, hfixed⟩ := (time_of_time? h).exists_fixed
    exact Fixed.beginsDateTime hfixed (Or.inr rfl)
  · rename_i hdate
    obtain ⟨n, r, hfixed⟩ := (date?_eq_some_iff.mp hdate).exists_fixed
    exact Fixed.beginsDateTime hfixed (Or.inl rfl)

/-- Where a value ends, no time begins. -/
theorem Ends.time?_eq_none (h : Ends rest) : time? rest = none := by
  refine Option.eq_none_iff_forall_ne_some.mpr fun r hr => ?_
  obtain ⟨n, s, hfixed⟩ := (time_of_time? hr).exists_fixed
  obtain ⟨_, _, hhead, _⟩ := Fixed.beginsDateTime hfixed (Or.inr rfl)
  have hstop : Stops isDigit rest := h.stops (by decide)
  cases rest with
  | nil => cases hhead
  | cons c r =>
      have hclass : isDigit c = true := hhead
      rw [stops_cons.mp hstop] at hclass
      cases hclass

/-- All of a date, a time or both is read where a value ends. -/
theorem dateTime?_eq (h : DateTime text rest) (hrest : Ends rest) : dateTime? text = some rest := by
  unfold dateTime?
  cases h with
  | date h =>
      rw [date?_eq_some_iff.mpr h]
      simp only
      split
      · rename_i c s
        split
        · rename_i hmark
          -- a blank behind the date may lead to a time, but no time begins where a value ends
          have hletters : Stops (fun c => c == 'T' || c == 't') (c :: s) := hrest.stops (by decide)
          rw [stops_cons.mp hletters, Bool.false_or, beq_iff_eq] at hmark
          subst hmark
          rw [hrest.tail.time?_eq_none]
        · rfl
      · rfl
  | time h =>
      -- where a date has its hyphen this text has a colon
      have hdate : date? text = none := by
        refine Option.eq_none_iff_forall_ne_some.mpr fun r hr => ?_
        obtain ⟨_, _, hyear⟩ := (date?_eq_some_iff.mp hr).exists_fixed
        obtain ⟨_, _, hhour⟩ := h.exists_fixed
        have hsame := (Fixed.dropWhile_eq hyear (by decide)).symm.trans
          (Fixed.dropWhile_eq hhour (by decide))
        cases hsame
      rw [hdate]
      exact time?_eq h (hrest.stops (by decide))
  | both hdate hmark htime hoffset =>
      have hafter : time? _ = some _ := time?_eq htime (by
        cases hoffset with
        | none => exact hrest.stops (by decide)
        | zero hmark => rcases hmark with rfl | rfl <;> exact stops_cons.mpr (by decide)
        | apart hmark => rcases hmark with rfl | rfl <;> exact stops_cons.mpr (by decide))
      rw [date?_eq_some_iff.mpr hdate]
      rcases hmark with rfl | rfl | rfl <;>
      · simp only [hafter]
        exact offset?_eq hoffset hrest

/-! ## Floats and integers -/

/-- Behind the first digits of a number stands what follows the number, or an underscore. -/
theorem Grammar.Digits.dropWhile (h : Digits 10 text digits rest) (hrest : Stops isDigit rest) :
    text.dropWhile isDigit = rest ∨ ∃ r, text.dropWhile isDigit = '_' :: r := by
  induction h with
  | last hc =>
      rw [List.dropWhile_cons_of_pos (isDigit_iff.mp hc)]
      exact Or.inl (dropWhile_of_stops hrest)
  | next hc _ ih =>
      rw [List.dropWhile_cons_of_pos (isDigit_iff.mp hc)]
      exact ih hrest
  | apart hc _ ih =>
      rw [List.dropWhile_cons_of_pos (isDigit_iff.mp hc)]
      exact Or.inr ⟨_, rfl⟩

theorem EndsDigits.stops (h : EndsDigits 10 rest) : Stops isDigit rest :=
  h.mono fun c hc => by rw [show (digit? 10 c).isSome = true from isDigit_iff.mpr hc]; rfl

/-- A whole number begins with a digit. -/
theorem Grammar.Whole.exists_cons (h : Whole text digits rest) :
    ∃ c r, text = c :: r ∧ isDigit c = true := by
  cases h with
  | zero => exact ⟨_, _, rfl, by decide⟩
  | digits hc h =>
      obtain ⟨c, r, heq, hdigit⟩ := h.exists_cons
      exact ⟨c, r, heq, isDigit_iff.mp hdigit⟩

/-- Behind the first digits of a whole number stands what follows the number, or an underscore. -/
theorem Grammar.Whole.dropWhile (h : Whole text digits rest) (hrest : Stops isDigit rest) :
    text.dropWhile isDigit = rest ∨ ∃ r, text.dropWhile isDigit = '_' :: r := by
  cases h with
  | zero =>
      have hzero : ∀ c ∈ ['0'], isDigit c = true := by decide
      exact Or.inl (dropWhile_append hzero hrest)
  | digits _ h => exact h.dropWhile hrest

/-- A number in base ten is no date and no time. -/
theorem dateTime?_eq_none_of_whole {start : List Char} {negative : Bool}
    (hsign : Sign text negative start) (h : Whole start digits rest)
    (hrest : Stops (fun c => isDigit c || c == '-' || c == ':') rest) : dateTime? text = none := by
  refine Option.eq_none_iff_forall_ne_some.mpr fun r hr => ?_
  obtain ⟨c, s, hhead, hdrop, hc⟩ := beginsDateTime_of_dateTime? hr
  cases hsign with
  | plus => exact absurd (show isDigit '+' = true from hhead) (by decide)
  | minus => exact absurd (show isDigit '-' = true from hhead) (by decide)
  | none =>
      rcases h.dropWhile (hrest.mono fun c hc => by rw [hc]; rfl) with heq | ⟨t, heq⟩
      · rw [heq] at hdrop
        subst hdrop
        rcases hc with rfl | rfl
        · exact absurd (stops_cons.mp hrest) (by decide)
        · exact absurd (stops_cons.mp hrest) (by decide)
      · rw [heq] at hdrop
        cases hdrop
        rcases hc with hc | hc
        · exact absurd hc (by decide)
        · exact absurd hc (by decide)

/-- What follows the whole part of a float is a point or the mark of an exponent. -/
theorem exists_point {point mark places : List Char} {exponent : Int}
    (hplaces : Places point places mark) (hexponent : Exponent mark exponent rest)
    (hpoint : point ≠ rest) : ∃ c r, point = c :: r ∧ c ∈ ['.', 'e', 'E'] := by
  cases hplaces with
  | some => exact ⟨_, _, rfl, by decide⟩
  | none =>
      cases hexponent with
      | none => exact absurd rfl hpoint
      | some hmark =>
          rcases hmark with rfl | rfl
          · exact ⟨_, _, rfl, by decide⟩
          · exact ⟨_, _, rfl, by decide⟩

/-- All places are read where neither a digit nor a second point follows. -/
theorem places?_eq (h : Places text digits rest) (hdigits : EndsDigits 10 rest)
    (hpoint : Stops (· == '.') rest) : places? text = some (digits, rest) := by
  cases h with
  | some h => exact digits?_eq (by decide) h hdigits
  | none =>
      unfold places?
      split
      · exact absurd (stops_cons.mp hpoint) (by decide)
      · rfl

/-- Digits do not begin with a sign. -/
theorem Grammar.Digits.stops_sign (h : Digits 10 text digits rest) :
    Stops (fun c => c == '+' || c == '-') text := by
  obtain ⟨c, r, rfl, hc⟩ := h.exists_cons
  refine stops_cons.mpr ?_
  cases hclass : (c == '+' || c == '-') with
  | false => rfl
  | true =>
      rw [Bool.or_eq_true, beq_iff_eq, beq_iff_eq] at hclass
      rcases hclass with rfl | rfl
      · exact absurd (isDigit_iff.mp hc) (by decide)
      · exact absurd (isDigit_iff.mp hc) (by decide)

/-- All of an exponent is read where a value ends. -/
theorem exponent?_eq {exponent : Int} (h : Exponent text exponent rest) (hrest : Ends rest) :
    exponent? text = some (exponent, rest) := by
  cases h with
  | none =>
      have hstop : Stops (fun c => c == 'e' || c == 'E') text := hrest.stops (by decide)
      unfold exponent?
      split
      · rfl
      · have hclass := stops_cons.mp hstop
        rw [Bool.or_eq_false_iff, beq_eq_false_iff_ne, beq_eq_false_iff_ne] at hclass
        rw [if_pos (by simpa using hclass)]
  | some hmark hsign hdigits =>
      have hread := digits?_eq (by decide) hdigits (hrest.endsDigits (by decide))
      have hsigned := sign_eq hsign hdigits.stops_sign
      rcases hmark with rfl | rfl <;>
      · simp only [exponent?, hsigned, hread]
        rfl

/-- A whole number does not begin with a further sign. -/
theorem Grammar.Whole.stops_sign (h : Whole text digits rest) :
    Stops (fun c => c == '+' || c == '-') text := by
  cases h with
  | zero => exact stops_cons.mpr (by decide)
  | digits _ h => exact h.stops_sign

/-- All of a float is read where a value ends. -/
theorem float?_eq (h : Grammar.Float text rest) (hrest : Ends rest) : float? text = some rest := by
  cases h with
  | special hword hsign =>
      simp only [specialFloats, List.mem_cons, List.not_mem_nil, or_false] at hword
      rcases hword with rfl | rfl <;>
      · have hsigned := sign_eq hsign (stops_cons.mpr (by decide))
        unfold float?
        simp only [hsigned]
        rfl
  | @number start _ mark _ _ _ _ _ hsign hdigits hplaces hexponent hpoint hfinite =>
      obtain ⟨c, r, rfl, hc⟩ := exists_point hplaces hexponent hpoint
      have hends : EndsDigits 10 (c :: r) := by
        refine stops_cons.mpr ?_
        simp only [List.mem_cons, List.not_mem_nil, or_false] at hc
        rcases hc with rfl | rfl | rfl <;> decide
      have hmark : EndsDigits 10 mark ∧ Stops (· == '.') mark := by
        cases hexponent with
        | none => exact ⟨hrest.endsDigits (by decide), hrest.stops (by decide)⟩
        | some hmark =>
            rcases hmark with rfl | rfl
            · exact ⟨stops_cons.mpr (by decide), stops_cons.mpr (by decide)⟩
            · exact ⟨stops_cons.mpr (by decide), stops_cons.mpr (by decide)⟩
      obtain ⟨d, s, hstart, hd⟩ := hdigits.exists_cons
      have hsigned := sign_eq hsign hdigits.stops_sign
      have hwhole := whole?_eq hdigits hends
      have hplacesRead := places?_eq hplaces hmark.1 hmark.2
      have hexponentRead := exponent?_eq hexponent hrest
      unfold float?
      simp only [hsigned]
      split
      · cases hstart
        cases hd
      · cases hstart
        cases hd
      · simp only [hwhole, Option.bind_eq_bind, Option.bind_some, List.head?_cons, Option.any_some,
          List.contains_iff_mem.mpr hc, hplacesRead, hexponentRead]
        have hvalue := bne_iff_ne.mpr hfinite
        simp only [hvalue]
        rfl

/-- Where no point and no exponent follow a number, it is no float. -/
theorem float?_eq_none {start : List Char} {negative : Bool} (hsign : Sign text negative start)
    (hdigits : whole? start = some (digits, rest))
    (hstart : Stops (fun c => c == '+' || c == '-' || c == 'i' || c == 'n') start)
    (hrest : ∀ c ∈ rest.head?, c ∉ ['.', 'e', 'E']) : float? text = none := by
  have hsigned := sign_eq hsign (hstart.mono fun c hc => by rw [hc]; rfl)
  have hguard : rest.head?.any (['.', 'e', 'E'].contains ·) = false := by
    cases rest with
    | nil => rfl
    | cons c r => exact Bool.eq_false_iff.mpr fun h => hrest c rfl (List.contains_iff_mem.mp h)
  unfold float?
  simp only [hsigned]
  split
  · exact absurd (stops_cons.mp hstart) (by decide)
  · exact absurd (stops_cons.mp hstart) (by decide)
  · simp only [hdigits, Option.bind_eq_bind, Option.bind_some, hguard]
    rfl

/-- Where a value ends, no float goes on. -/
theorem Ends.not_mem (h : Ends rest) : ∀ c ∈ rest.head?, c ∉ ['.', 'e', 'E'] := by
  have hstop : Stops (['.', 'e', 'E'].contains ·) rest := h.stops (by decide)
  intro c hc hmem
  exact absurd (List.contains_iff_mem.mpr hmem) (Bool.eq_false_iff.mp (hstop c hc))

/-- A whole number is neither signed again nor a word. -/
theorem Grammar.Whole.stops_letter (h : Whole text digits rest) :
    Stops (fun c => c == '+' || c == '-' || c == 'i' || c == 'n') text := by
  obtain ⟨c, r, rfl, hc⟩ := h.exists_cons
  refine stops_cons.mpr (Bool.eq_false_iff.mpr fun hclass => ?_)
  simp only [Bool.or_eq_true, beq_iff_eq] at hclass
  rcases hclass with ((rfl | rfl) | rfl) | rfl <;> cases hc

/-- Behind the mark of a base the digits of this base are read. -/
theorem integer?_inBase {mark : Char} (hmark : (mark, base) ∈ bases) (text : List Char) :
    integer? ('0' :: mark :: text) =
      (digits? base text).bind fun read => (sized? (number base read.1)).map (·, read.2) := by
  simp only [bases, List.mem_cons, Prod.mk.injEq, List.not_mem_nil, or_false] at hmark
  rcases hmark with ⟨rfl, rfl⟩ | ⟨rfl, rfl⟩ | ⟨rfl, rfl⟩ <;>
  · simp only [integer?, Option.map_eq_bind]
    rfl

theorem le_of_mem_bases {mark : Char} (hmark : (mark, base) ∈ bases) :
    base ≤ 16 ∧ (mark = 'x' ∨ mark = 'o' ∨ mark = 'b') := by
  simp only [bases, List.mem_cons, Prod.mk.injEq, List.not_mem_nil, or_false] at hmark
  rcases hmark with ⟨rfl, rfl⟩ | ⟨rfl, rfl⟩ | ⟨rfl, rfl⟩ <;> simp

/-- All of an integer is read where a value ends. -/
theorem integer?_eq {k : Int} (h : Integer text k rest) (hrest : Ends rest) :
    integer? text = some (.integer k, rest) := by
  cases h with
  | @decimal _ start digits _ negative hsign hdigits hsize =>
      have hwhole := whole?_eq hdigits (hrest.endsDigits (by decide))
      have hsigned := sign_eq hsign hdigits.stops_sign
      have hsized := sized?_eq hsize
      have hbase : Stops (fun c => c == 'x' || c == 'o' || c == 'b') rest := hrest.stops (by decide)
      -- a zero is the whole number, and no mark of a base can follow it
      have hno : ∀ mark r, (mark = 'x' ∨ mark = 'o' ∨ mark = 'b') → text ≠ '0' :: mark :: r := by
        rintro mark r hmark rfl
        cases hsign
        cases hdigits with
        | zero => rcases hmark with rfl | rfl | rfl <;> exact absurd (stops_cons.mp hbase) (by decide)
        | digits hc => exact hc rfl
      unfold integer?
      split
      · exact absurd rfl (hno 'x' _ (Or.inl rfl))
      · exact absurd rfl (hno 'o' _ (Or.inr (Or.inl rfl)))
      · exact absurd rfl (hno 'b' _ (Or.inr (Or.inr rfl)))
      · simp only [hsigned, hwhole, Option.bind_eq_bind, Option.bind_some]
        unfold signed at hsized
        simp only [hsized]
        rfl
  | inBase hmark hdigits hsize =>
      have hsized := sized?_eq ⟨by omega, Int.ofNat_lt.mpr hsize⟩
      have hbase := (le_of_mem_bases hmark).1
      rw [integer?_inBase hmark, digits?_eq hbase hdigits (hrest.endsDigits hbase),
        Option.bind_some, hsized, Option.map_some]

/-- Where a value ends, all that the grammar says of a number, a date or a time is read. -/
theorem numeric?_eq {v : Value} (h : Numeric text v rest) (hrest : Ends rest) :
    numeric? text = some (v, rest) := by
  unfold numeric?
  cases h with
  | dateTime h => rw [dateTime?_eq h hrest]
  | float h =>
      -- dates and times are tried first
      have hdate : dateTime? text = none := by
        cases h with
        | special hword hsign =>
            refine Option.eq_none_iff_forall_ne_some.mpr fun r hr => ?_
            obtain ⟨c, s, hhead, _⟩ := beginsDateTime_of_dateTime? hr
            simp only [specialFloats, List.mem_cons, List.not_mem_nil, or_false] at hword
            rcases hword with rfl | rfl <;> cases hsign <;> cases hhead
        | number hsign hdigits hplaces hexponent hpoint =>
            obtain ⟨c, r, rfl, hc⟩ := exists_point hplaces hexponent hpoint
            refine dateTime?_eq_none_of_whole hsign hdigits (stops_cons.mpr ?_)
            simp only [List.mem_cons, List.not_mem_nil, or_false] at hc
            rcases hc with rfl | rfl | rfl <;> decide
      rw [hdate, float?_eq h hrest]
  | integer h =>
      -- dates, times and floats are tried first
      have hother : dateTime? text = none ∧ float? text = none := by
        cases h with
        | decimal hsign hdigits =>
            have hwhole := whole?_eq hdigits (hrest.endsDigits (by decide))
            exact ⟨dateTime?_eq_none_of_whole hsign hdigits (hrest.stops (by decide)),
              float?_eq_none hsign hwhole hdigits.stops_letter hrest.not_mem⟩
        | inBase hmark =>
            refine ⟨dateTime?_eq_none_of_whole (.none _) (.zero _) (stops_cons.mpr ?_),
              float?_eq_none (.none _) rfl (stops_cons.mpr (by decide)) ?_⟩
            · rcases (le_of_mem_bases hmark).2 with rfl | rfl | rfl <;> decide
            · rintro _ ⟨⟩
              rcases (le_of_mem_bases hmark).2 with rfl | rfl | rfl <;> decide
      rw [hother.1, hother.2]
      exact integer?_eq h hrest

/-! ## What is left is not longer -/

/-- A sign leaves no longer text, and so do all relations below. -/
theorem Grammar.Sign.length_le {negative : Bool} (h : Sign text negative rest) :
    rest.length ≤ text.length := by
  cases h with
  | none => exact Nat.le_refl _
  | plus => exact Nat.le_succ _
  | minus => exact Nat.le_succ _

theorem Grammar.Digits.length_le (h : Digits base text digits rest) : rest.length ≤ text.length := by
  induction h with
  | last => exact Nat.le_succ _
  | next _ _ ih => exact Nat.le_succ_of_le ih
  | apart _ _ ih => exact Nat.le_succ_of_le (Nat.le_succ_of_le ih)

theorem Grammar.Whole.length_le (h : Whole text digits rest) : rest.length ≤ text.length := by
  cases h with
  | zero => exact Nat.le_succ _
  | digits _ h => exact h.length_le

theorem Grammar.Integer.length_le {k : Int} (h : Integer text k rest) :
    rest.length ≤ text.length := by
  cases h with
  | decimal hsign hdigits => exact Nat.le_trans hdigits.length_le hsign.length_le
  | inBase _ hdigits => exact Nat.le_succ_of_le (Nat.le_succ_of_le hdigits.length_le)

theorem Grammar.Places.length_le (h : Places text digits rest) : rest.length ≤ text.length := by
  cases h with
  | none => exact Nat.le_refl _
  | some h => exact Nat.le_succ_of_le h.length_le

theorem Grammar.Exponent.length_le {exponent : Int} (h : Exponent text exponent rest) :
    rest.length ≤ text.length := by
  cases h with
  | none => exact Nat.le_refl _
  | some _ hsign hdigits =>
      exact Nat.le_succ_of_le (Nat.le_trans hdigits.length_le hsign.length_le)

theorem Grammar.Float.length_le (h : Grammar.Float text rest) : rest.length ≤ text.length := by
  cases h with
  | special _ hsign =>
      have hlength := hsign.length_le
      rw [List.length_append] at hlength
      omega
  | number hsign hdigits hplaces hexponent =>
      exact Nat.le_trans hexponent.length_le (Nat.le_trans hplaces.length_le
        (Nat.le_trans hdigits.length_le hsign.length_le))

theorem Fixed.length_le {width : Nat} (h : Fixed width text n rest) : rest.length ≤ text.length := by
  obtain ⟨digits, rfl, _⟩ := h
  rw [List.length_append]
  exact Nat.le_add_left _ _

theorem Grammar.Date.length_le (h : Date text rest) : rest.length ≤ text.length := by
  obtain ⟨hyear, hmonth, hday, _⟩ := h
  have hyear := Fixed.length_le hyear
  have hmonth := Fixed.length_le hmonth
  have hday := Fixed.length_le hday
  simp only [List.length_cons] at hyear hmonth
  omega

theorem Grammar.HourMinute.length_le (h : HourMinute text rest) : rest.length ≤ text.length := by
  obtain ⟨hhour, hminute, _⟩ := h
  have hhour := Fixed.length_le hhour
  have hminute := Fixed.length_le hminute
  rw [List.length_cons] at hhour
  omega

theorem Grammar.Fraction.length_le (h : Fraction text rest) : rest.length ≤ text.length := by
  cases h with
  | none => exact Nat.le_refl _
  | some =>
      rw [List.length_cons, List.length_append]
      omega

theorem Grammar.Time.length_le (h : Time text rest) : rest.length ≤ text.length := by
  obtain ⟨hminute, hsecond, _, hfraction⟩ := h
  have hminute := hminute.length_le
  have hsecond := Fixed.length_le hsecond
  have hfraction := hfraction.length_le
  rw [List.length_cons] at hminute
  omega

theorem Grammar.Offset.length_le (h : Offset text rest) : rest.length ≤ text.length := by
  cases h with
  | none => exact Nat.le_refl _
  | zero => exact Nat.le_succ _
  | apart _ h => exact Nat.le_succ_of_le h.length_le

theorem Grammar.DateTime.length_le (h : DateTime text rest) : rest.length ≤ text.length := by
  cases h with
  | date h => exact h.length_le
  | time h => exact h.length_le
  | both hdate _ htime hoffset =>
      have hdate := hdate.length_le
      have htime := htime.length_le
      have hoffset := hoffset.length_le
      rw [List.length_cons] at hdate
      omega

/-- A number, a date or a time leaves no longer text. -/
theorem Grammar.Numeric.length_le {v : Value} (h : Numeric text v rest) :
    rest.length ≤ text.length := by
  cases h with
  | integer h => exact h.length_le
  | float h => exact h.length_le
  | dateTime h => exact h.length_le

end OperatorBundle.Toml
