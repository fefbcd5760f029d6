import OperatorBundle.Decimal.Binary64
import OperatorBundle.Toml.Text
import OperatorBundle.Toml.Value

/-!
# Numbers and dates

Readers for what begins with a digit or a sign.  Digits may be separated by single underscores.
-/

namespace OperatorBundle.Toml

/-! ## Digits -/

/-- Digits of a base with single underscores between them, and what follows; `needed` says that a
digit must come next. -/
def digitsFrom? (base : Nat) (needed : Bool) : List Char → Option (List Char × List Char)
  | [] => if needed then none else some ([], [])
  | c :: r =>
      if (digit? base c).isSome then
        (digitsFrom? base false r).map fun (more, rest) => (c :: more, rest)
      else if needed then none
      else if c == '_' then digitsFrom? base true r
      else some ([], c :: r)

/-- One digit or more. -/
def digits? (base : Nat) (text : List Char) : Option (List Char × List Char) :=
  digitsFrom? base true text

/-- The number that digits write. -/
def number (base : Nat) (digits : List Char) : Nat :=
  digits.foldl (fun n c => base * n + (digit? base c).getD 0) 0

/-- An optional sign: whether it is a minus, and what follows. -/
def sign : List Char → Bool × List Char
  | '-' :: r => (true, r)
  | '+' :: r => (false, r)
  | text => (false, text)

/-- The digits of a whole number, which begins with a zero only if it is zero. -/
def whole? : List Char → Option (List Char × List Char)
  | '0' :: r => some (['0'], r)
  | text => digits? 10 text

/-! ## Integers -/

/-- An integer of 64 bits. -/
def sized? (n : Int) : Option Value :=
  if -2 ^ (63 : Nat) ≤ n && n < 2 ^ (63 : Nat) then some (.integer n) else none

/-- An integer in base ten, or behind `0x`, `0o` or `0b` and without sign in another. -/
def integer? (text : List Char) : Option (Value × List Char) := do
  let inBase (base : Nat) (r : List Char) : Option (Value × List Char) := do
    let (digits, r) ← digits? base r
    return (← sized? (number base digits), r)
  match text with
  | '0' :: 'x' :: r => inBase 16 r
  | '0' :: 'o' :: r => inBase 8 r
  | '0' :: 'b' :: r => inBase 2 r
  | _ =>
      let (negative, r) := sign text
      let (digits, r) ← whole? r
      let n : Int := number 10 digits
      return (← sized? (if negative then -n else n), r)

/-! ## Floats -/

/-- The places behind a point; empty where there is no point. -/
def places? : List Char → Option (List Char × List Char)
  | '.' :: r => digits? 10 r
  | text => some ([], text)

/-- The exponent behind `e`; zero where there is none. -/
def exponent? : List Char → Option (Int × List Char)
  | [] => some (0, [])
  | c :: r =>
      if c != 'e' && c != 'E' then some (0, c :: r)
      else do
        let (negative, r) := sign r
        let (digits, r) ← digits? 10 r
        let n : Int := number 10 digits
        return (if negative then -n else n, r)

/-- What follows a float: a whole number with places, an exponent or both, or one of the words for
infinity and not-a-number.  A positive one must not exceed all finite numbers. -/
def float? (text : List Char) : Option (List Char) := do
  let (negative, r) := sign text
  match r with
  | 'i' :: 'n' :: 'f' :: r => return r
  | 'n' :: 'a' :: 'n' :: r => return r
  | _ =>
      let (before, r) ← whole? r
      guard (r.head?.any (['.', 'e', 'E'].contains ·))
      let (places, r) ← places? r
      let (exponent, r) ← exponent? r
      let value :=
        Decimal.Binary64.ofDecimal negative (number 10 (before ++ places))
          (exponent - places.length)
      guard (value != .infinity false)
      return r

/-! ## Dates and times -/

/-- A number of exactly `width` digits. -/
def fixed? (width : Nat) (text : List Char) : Option (Nat × List Char) := do
  let digits := text.take width
  guard (digits.length == width && digits.all isDigit)
  return (number 10 digits, text.drop width)

/-- What follows the character `c`. -/
def behind? (c : Char) : List Char → Option (List Char)
  | d :: r => if c == d then some r else none
  | [] => none

/-- The number of days of a month. -/
def daysOf (year month : Nat) : Nat :=
  match month with
  | 2 => if (year % 4 == 0 && year % 100 != 0) || year % 400 == 0 then 29 else 28
  | 4 | 6 | 9 | 11 => 30
  | _ => 31

/-- What follows a date. -/
def date? (text : List Char) : Option (List Char) := do
  let (year, r) ← fixed? 4 text
  let (month, r) ← fixed? 2 (← behind? '-' r)
  let (day, r) ← fixed? 2 (← behind? '-' r)
  guard (1 ≤ month && month ≤ 12 && 1 ≤ day && day ≤ daysOf year month)
  return r

/-- What follows hours and minutes. -/
def hourMinute? (text : List Char) : Option (List Char) := do
  let (hour, r) ← fixed? 2 text
  let (minute, r) ← fixed? 2 (← behind? ':' r)
  guard (hour ≤ 23 && minute ≤ 59)
  return r

/-- What follows a time of day. -/
def time? (text : List Char) : Option (List Char) := do
  let r ← hourMinute? text
  let (second, r) ← fixed? 2 (← behind? ':' r)
  guard (second ≤ 60)
  match r with
  | '.' :: d :: s => if isDigit d then return s.dropWhile isDigit else return r
  | _ => return r

/-- What follows the offset of a time, if there is one. -/
def offset? : List Char → Option (List Char)
  | c :: r =>
      if c == 'Z' || c == 'z' then some r
      else if c == '+' || c == '-' then hourMinute? r
      else some (c :: r)
  | [] => some []

/-- What follows a date, a time, or both. -/
def dateTime? (text : List Char) : Option (List Char) :=
  match date? text with
  | none => time? text
  | some r =>
      match r with
      | c :: s =>
          if c == 'T' || c == 't' || c == ' ' then
            match time? s with
            | some rest => offset? rest
            | none => some r
          else some r
      | [] => some r

/-- A value that begins with a digit or a sign, or is one of the words for special floats. -/
def numeric? (text : List Char) : Option (Value × List Char) :=
  match dateTime? text with
  | some r => some (.dateTime, r)
  | none =>
      match float? text with
      | some r => some (.float, r)
      | none => integer? text

end OperatorBundle.Toml
