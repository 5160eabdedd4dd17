import FeatureFlags.Go.Decimal
import FeatureFlags.Go.Time

/-!
# `time.RFC3339Nano`

Times as text: `formatRFC3339Nano` is `Time.Format(time.RFC3339Nano)` and `parseRFC3339` is
`time.Parse` with that layout.  Dates are those of the proleptic Gregorian calendar.  `Format`
prints a year beyond 9999 with more than four digits and a negative one with a minus sign; `Parse`
reads exactly four digits.  `Parse` also accepts an hour of one digit and a comma before the
fraction.
-/

namespace FeatureFlags.Go

/-! ### The calendar -/

def isLeap (year : Int) : Bool := year % 4 = 0 ∧ (year % 100 ≠ 0 ∨ year % 400 = 0)

/-- Days from January 1 of year 1 to January 1 of `year`. -/
def daysBeforeYear (year : Int) : Int :=
  365 * (year - 1) + (year - 1) / 4 - (year - 1) / 100 + (year - 1) / 400

/-- The year of a day: the average length of a year gives it up to one. -/
def yearOfDay (day : Int) : Int :=
  let year := 400 * day / 146097 + 1
  if day < daysBeforeYear year then year - 1
  else if daysBeforeYear (year + 1) ≤ day then year + 1
  else year

/-- Days from January 1 to the first of the month `month + 1`. -/
def daysBeforeMonth (leap : Bool) (month : Nat) : Nat :=
  ([0, 31, 59, 90, 120, 151, 181, 212, 243, 273, 304, 334].getD month 365) +
    (if leap ∧ 2 ≤ month then 1 else 0)

/-- The month, from 0, of a day of the year, from 0. -/
def monthOfDay (leap : Bool) (day : Nat) : Nat :=
  ((List.range 11).filter fun month => daysBeforeMonth leap (month + 1) ≤ day).length

/-! ### Zoned times -/

/-- A `time.Time` with the offset of its location, in seconds east of UTC. -/
structure ZonedTime where
  time : Time
  offset : Int
deriving DecidableEq

namespace ZonedTime

/-- The zero time, in UTC. -/
def zero : ZonedTime := ⟨.zero, 0⟩

/-- Seconds of local time since January 1 of year 1. -/
def localSeconds (t : ZonedTime) : Int := t.time.nanos / 1000000000 + t.offset

/-- The local date as a day number. -/
def day (t : ZonedTime) : Int := t.localSeconds / 86400

/-- `t.Year()`. -/
def year (t : ZonedTime) : Int := yearOfDay t.day

/-- The day of the year, from 0. -/
def yearDay (t : ZonedTime) : Nat := (t.day - daysBeforeYear t.year).toNat

/-- `t.Month()`. -/
def month (t : ZonedTime) : Nat := monthOfDay (isLeap t.year) t.yearDay + 1

/-- `t.Day()`. -/
def monthDay (t : ZonedTime) : Nat :=
  t.yearDay - daysBeforeMonth (isLeap t.year) (t.month - 1) + 1

/-- Seconds since local midnight. -/
def daySecond (t : ZonedTime) : Nat := (t.localSeconds % 86400).toNat

/-- `t.Nanosecond()`. -/
def nanosecond (t : ZonedTime) : Nat := (t.time.nanos % 1000000000).toNat

end ZonedTime

/-! ### Formatting -/

/-- The year with at least four digits. -/
def formatYear (year : Int) : Bytes :=
  if year < 0 then 0x2D :: padded 4 year.natAbs else padded 4 year.natAbs

/-- The fraction of a second, without trailing zeros. -/
def formatFraction (nanosecond : Nat) : Bytes :=
  if nanosecond = 0 then []
  else 0x2E :: ((padded 9 nanosecond).reverse.dropWhile (· == 0x30)).reverse

/-- The offset in hours and minutes. -/
def formatOffset (offset : Int) : Bytes :=
  if offset = 0 then [0x5A]
  else
    (if offset.tdiv 60 < 0 then 0x2D else 0x2B) :: padded 2 ((offset.tdiv 60).natAbs / 60) ++
      0x3A :: padded 2 ((offset.tdiv 60).natAbs % 60)

/-- `t.Format(time.RFC3339Nano)`. -/
def formatRFC3339Nano (t : ZonedTime) : Bytes :=
  formatYear t.year ++ 0x2D :: padded 2 t.month ++ 0x2D :: padded 2 t.monthDay ++
    0x54 :: padded 2 (t.daySecond / 3600) ++ 0x3A :: padded 2 (t.daySecond / 60 % 60) ++
    0x3A :: padded 2 (t.daySecond % 60) ++ formatFraction t.nanosecond ++ formatOffset t.offset

/-! ### Parsing -/

/-- The rest after the byte `c`. -/
def expect (c : UInt8) : Bytes → Option Bytes
  | [] => none
  | d :: rest => if d = c then some rest else none

/-- `getnum`: a number of two digits, or of one if it is not `fixed`. -/
def getnum (fixed : Bool) : Bytes → Option (Nat × Bytes)
  | [] => none
  | [a] => if Json.isDigit a ∧ fixed = false then some (a.toNat - 0x30, []) else none
  | a :: b :: rest =>
    if ¬ Json.isDigit a then none
    else if Json.isDigit b then some ((a.toNat - 0x30) * 10 + (b.toNat - 0x30), rest)
    else if fixed then none
    else some (a.toNat - 0x30, b :: rest)

/-- A year of four digits. -/
def getYear (s : Bytes) : Option (Nat × Bytes) :=
  if s.length < 4 then none else (digitsValue (s.take 4)).map fun n => (n, s.drop 4)

/-- An optional fraction of a second, in nanoseconds; digits after the ninth are dropped. -/
def getFraction : Bytes → Nat × Bytes
  | c :: d :: rest =>
    if (c = 0x2E ∨ c = 0x2C) ∧ Json.isDigit d then
      let digits := ((d :: rest).takeWhile Json.isDigit).take 9
      (((digitsValue digits).getD 0) * 10 ^ (9 - digits.length), (d :: rest).dropWhile Json.isDigit)
    else (0, c :: d :: rest)
  | s => (0, s)

/-- The offset at the end of the text. -/
def getOffset : Bytes → Option Int
  | [0x5A] => some 0
  | [sign, h₁, h₂, colon, m₁, m₂] => do
    if colon ≠ 0x3A then none
    let (hour, _) ← getnum true [h₁, h₂]
    let (minute, _) ← getnum true [m₁, m₂]
    if hour > 24 ∨ minute > 60 then none
    if sign = 0x2B then some ((hour * 60 + minute) * 60)
    else if sign = 0x2D then some (-((hour * 60 + minute) * 60 : Int))
    else none
  | _ => none

/-- The instant of a local date and time. -/
def ofCivil (year : Int) (month monthDay hour minute second nanosecond : Nat) (offset : Int) :
    Time where
  nanos :=
    ((daysBeforeYear year + daysBeforeMonth (isLeap year) (month - 1) + monthDay - 1) * 86400 +
      hour * 3600 + minute * 60 + second - offset) * 1000000000 + nanosecond

/-- `time.Parse(time.RFC3339Nano, s)`; also with `time.RFC3339`, which reads fractions too. -/
def parseRFC3339 (s : Bytes) : Option ZonedTime := do
  let (year, s) ← getYear s
  let s ← expect 0x2D s
  let (month, s) ← getnum true s
  if month < 1 ∨ 12 < month then none
  let s ← expect 0x2D s
  let (monthDay, s) ← getnum true s
  let s ← expect 0x54 s
  let (hour, s) ← getnum false s
  if 24 ≤ hour then none
  let s ← expect 0x3A s
  let (minute, s) ← getnum true s
  if 60 ≤ minute then none
  let s ← expect 0x3A s
  let (second, s) ← getnum true s
  if 60 ≤ second then none
  let (nanosecond, s) := getFraction s
  let offset ← getOffset s
  if monthDay < 1 ∨ daysBeforeMonth (isLeap year) month <
      daysBeforeMonth (isLeap year) (month - 1) + monthDay then
    none
  return ⟨ofCivil year month monthDay hour minute second nanosecond offset, offset⟩

end FeatureFlags.Go
