import SoapMtom.Text.Utf8

/-!
# Instants and their written form

An `Instant` counts seconds from the start of 1970 in UTC and nanoseconds on top of that; a leap
second is the second before it with a billion nanoseconds or more. `Instant.render` writes one to
the millisecond, as in `2025-01-01T00:00:00.000Z`; `Instant.parse` reads that form, and the others
that RFC 3339 allows.
-/

namespace SoapMtom

/-- A point in time. -/
structure Instant where
  /-- Whole seconds since the start of 1970, without leap seconds. -/
  seconds : Int
  /-- Nanoseconds on top; from a billion up they lie in a leap second. -/
  nanoseconds : Nat
deriving DecidableEq, Repr

namespace Calendar

/-- A day of the Gregorian calendar, carried on before its introduction. -/
structure Date where
  year : Int
  month : Nat
  day : Nat
deriving DecidableEq, Repr

/-- Days in four hundred years. -/
def daysPerEra : Nat := 146097

/-- The date so many days after the first of January 1970. Years are counted from March, so that
the leap day ends one; `era` numbers the spans of four hundred years. -/
def dateOfDay (day : Int) : Date :=
  let shifted := day + 719468
  let era := shifted / daysPerEra
  let dayOfEra := (shifted % daysPerEra).toNat
  let yearOfEra := (dayOfEra - dayOfEra / 1460 + dayOfEra / 36524 - dayOfEra / 146096) / 365
  let dayOfYear := dayOfEra - (365 * yearOfEra + yearOfEra / 4 - yearOfEra / 100)
  let monthFromMarch := (5 * dayOfYear + 2) / 153
  let month := if monthFromMarch < 10 then monthFromMarch + 3 else monthFromMarch - 9
  { year := yearOfEra + era * 400 + (if month ≤ 2 then 1 else 0)
    month
    day := dayOfYear - (153 * monthFromMarch + 2) / 5 + 1 }

/-- How many days after the first of January 1970 the date lies. -/
def dayOfDate (date : Date) : Int :=
  let year := if date.month ≤ 2 then date.year - 1 else date.year
  let era := year / 400
  let yearOfEra := (year % 400).toNat
  let monthFromMarch := if 2 < date.month then date.month - 3 else date.month + 9
  let dayOfYear := (153 * monthFromMarch + 2) / 5 + date.day - 1
  let dayOfEra := yearOfEra * 365 + yearOfEra / 4 - yearOfEra / 100 + dayOfYear
  era * daysPerEra + dayOfEra - 719468

/-- Whether the year has a leap day. -/
def isLeap (year : Int) : Bool :=
  year % 4 = 0 && (year % 100 ≠ 0 || year % 400 = 0)

/-- How many days the month has, zero when there is no such month. -/
def monthLength (year : Int) (month : Nat) : Nat :=
  match month with
  | 1 | 3 | 5 | 7 | 8 | 10 | 12 => 31
  | 4 | 6 | 9 | 11 => 30
  | 2 => if isLeap year then 29 else 28
  | _ => 0

/-- Whether the calendar has the date. -/
def Date.exists? (date : Date) : Bool :=
  1 ≤ date.day && date.day ≤ monthLength date.year date.month

end Calendar

namespace Instant

/-- A number with leading zeros up to `width` digits. -/
def padded (width n : Nat) : String :=
  let digits := Nat.toDigits 10 n
  String.ofList (List.replicate (width - digits.length) '0' ++ digits)

/-- Four digits, or a sign and at least four digits for a year outside 0 to 9999. -/
def renderYear (year : Int) : String :=
  if 0 ≤ year ∧ year ≤ 9999 then padded 4 year.toNat
  else if year < 0 then "-" ++ padded 4 year.natAbs
  else "+" ++ padded 4 year.natAbs

/-- The instant in UTC, cut to the millisecond. -/
def render (t : Instant) : String :=
  let date := Calendar.dateOfDay (t.seconds / 86400)
  let second := (t.seconds % 86400).toNat
  let leap := t.nanoseconds / 1000000000
  let millis := t.nanoseconds % 1000000000 / 1000000
  renderYear date.year ++ "-" ++ padded 2 date.month ++ "-" ++ padded 2 date.day ++ "T" ++
    padded 2 (second / 3600) ++ ":" ++ padded 2 (second / 60 % 60) ++ ":" ++
    padded 2 (second % 60 + leap) ++ "." ++ padded 3 millis ++ "Z"

/-- Why a text is no timestamp. -/
inductive Malformed where
  | invalid
  | outOfRange
  | tooShort
  | tooLong
deriving DecidableEq, Repr

/-- The wording of the four failures. -/
def Malformed.message : Malformed → String
  | .invalid => "input contains invalid characters"
  | .outOfRange => "input is out of range"
  | .tooShort => "premature end of input"
  | .tooLong => "trailing input"

/-- Whether the byte is an ASCII digit. -/
def isDigit (b : UInt8) : Bool := 48 ≤ b && b ≤ 57

/-- The number that ASCII digits write, most significant first. -/
def numberOf (digits : Bytes) : Nat := digits.foldl (fun n b => n * 10 + (b.toNat - 48)) 0

/-- A number of exactly `width` digits at the head of the bytes, and the bytes after it. -/
def takeNumber (width : Nat) (bs : Bytes) : Except Malformed (Nat × Bytes) :=
  if (bs.take width).length < width then .error .tooShort
  else if (bs.take width).all isDigit then .ok (numberOf (bs.take width), bs.drop width)
  else .error .invalid

/-- The bytes after the one wanted. -/
def takeByte (wanted : UInt8) : Bytes → Except Malformed Bytes
  | [] => .error .tooShort
  | b :: rest => if b = wanted then .ok rest else .error .invalid

/-- Nanoseconds from the digits after the decimal point: nine of them count, more are skipped. -/
def takeFraction (bs : Bytes) : Except Malformed (Nat × Bytes) :=
  match bs with
  | [] => .error .tooShort
  | _ =>
    let digits := (bs.take 9).takeWhile isDigit
    if digits.isEmpty then .error .invalid
    else .ok (numberOf digits * Nat.pow 10 (9 - digits.length), bs.dropWhile isDigit)

/-- The offset from UTC in seconds: `Z`, or a sign, hours, a colon and minutes. The minus sign may
be U+2212 as well as the hyphen. -/
def takeOffset (bs : Bytes) : Except Malformed (Int × Bytes) :=
  match bs with
  | [] => .error .tooShort
  | 90 :: rest | 122 :: rest => .ok (0, rest)
  | 43 :: rest => signed 1 rest
  | 45 :: rest => signed (-1) rest
  | 0xE2 :: 0x88 :: 0x92 :: rest => signed (-1) rest
  | _ => .error .invalid
where
  /-- Hours, a colon and minutes; minutes from 60 up are digits, but out of range. -/
  signed (sign : Int) (bs : Bytes) : Except Malformed (Int × Bytes) := do
    let (hours, bs) ← takeNumber 2 bs
    let bs ← takeByte 58 bs
    let (minutes, bs) ← takeNumber 2 bs
    if 60 ≤ minutes then throw .outOfRange
    pure (sign * (hours * 3600 + minutes * 60), bs)

/-- The date and the separator before the time. -/
def takeDate (bs : Bytes) : Except Malformed (Calendar.Date × Bytes) := do
  let (year, bs) ← takeNumber 4 bs
  let bs ← takeByte 45 bs
  let (month, bs) ← takeNumber 2 bs
  let bs ← takeByte 45 bs
  let (day, bs) ← takeNumber 2 bs
  let date : Calendar.Date := { year, month, day }
  if !date.exists? then throw .outOfRange
  match bs with
  | 84 :: rest | 116 :: rest | 32 :: rest => pure (date, rest)
  | _ => throw .invalid

/-- The time of day, as seconds and nanoseconds; second 60 is second 59 with a billion nanoseconds
more. -/
def takeTime (bs : Bytes) : Except Malformed (Nat × Nat × Bytes) := do
  let (hour, bs) ← takeNumber 2 bs
  let bs ← takeByte 58 bs
  let (minute, bs) ← takeNumber 2 bs
  let bs ← takeByte 58 bs
  let (second, bs) ← takeNumber 2 bs
  let (fraction, bs) ←
    match bs with
    | 46 :: rest => takeFraction rest
    | _ => pure (0, bs)
  if 24 ≤ hour || 60 ≤ minute || 61 ≤ second then throw .outOfRange
  if second = 60 then pure (hour * 3600 + minute * 60 + 59, fraction + 1000000000, bs)
  else pure (hour * 3600 + minute * 60 + second, fraction, bs)

/-- Reads a date, a time and an offset. The fixed part has nineteen bytes, so anything shorter is
called short whatever it holds. -/
def parse (s : String) : Except Malformed Instant := do
  let bs := Utf8.encode s
  if bs.length < 19 then throw .tooShort
  let (date, bs) ← takeDate bs
  let (second, nanoseconds, bs) ← takeTime bs
  let (offset, bs) ← takeOffset bs
  if !bs.isEmpty then throw .tooLong
  if offset < -86340 || 86340 < offset then throw .outOfRange
  pure { seconds := Calendar.dayOfDate date * 86400 + second - offset, nanoseconds }

end Instant

end SoapMtom
