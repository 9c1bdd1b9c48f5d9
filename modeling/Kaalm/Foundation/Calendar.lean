import Mathlib.Data.Int.Notation
import Mathlib.Data.Nat.Notation

/-!
# The proleptic Gregorian calendar

Instants are integers, nanoseconds since the Unix epoch, in UTC. Every clock in the development
reads one of these. A day number counts days since the epoch; `civil` and `daysFromCivil` convert
between day numbers and dates, and `isoWeek` is the ISO 8601 week: the week of a date belongs to
the year its Thursday lies in.
-/

/-- An instant: nanoseconds since 1970-01-01T00:00:00Z. -/
abbrev Time := ℤ

namespace Calendar

def second : Time := 1000000000

def nanosPerDay : Time := 86400 * second

/-- The day number of an instant. -/
def dayNumber (t : Time) : ℤ := t / nanosPerDay

/-- Midnight of a day. -/
def midnight (day : ℤ) : Time := day * nanosPerDay

/-- Year, month and day of a date. -/
structure Date where
  year : ℤ
  month : ℤ
  day : ℤ
  deriving DecidableEq, Repr

/-- The date of a day number. Years are counted from 1 March, so that the leap day is the last day
of a year; an era is the 400 years after which the calendar repeats. -/
def civil (z : ℤ) : Date :=
  let z := z + 719468
  let era := z / 146097
  let doe := z - era * 146097
  let yoe := (doe - doe / 1460 + doe / 36524 - doe / 146096) / 365
  let doy := doe - (365 * yoe + yoe / 4 - yoe / 100)
  let mp := (5 * doy + 2) / 153
  let month := if mp < 10 then mp + 3 else mp - 9
  { year := yoe + era * 400 + if month ≤ 2 then 1 else 0
    month := month
    day := doy - (153 * mp + 2) / 5 + 1 }

/-- The day number of a date. -/
def daysFromCivil (d : Date) : ℤ :=
  let y := if d.month ≤ 2 then d.year - 1 else d.year
  let era := y / 400
  let yoe := y - era * 400
  let mp := if d.month > 2 then d.month - 3 else d.month + 9
  let doy := (153 * mp + 2) / 5 + d.day - 1
  let doe := yoe * 365 + yoe / 4 - yoe / 100 + doy
  era * 146097 + doe - 719468

/-- The day of the week, Sunday being `0`. -/
def weekday (z : ℤ) : ℤ := (z + 4) % 7

/-- The ISO 8601 year and week of a day. -/
def isoWeek (z : ℤ) : ℤ × ℤ :=
  let toThursday := if weekday z = 0 then -3 else 4 - weekday z
  let thursday := z + toThursday
  let year := (civil thursday).year
  let yearDay := thursday - daysFromCivil ⟨year, 1, 1⟩
  (year, yearDay / 7 + 1)

/-- The decimal digits of `n`, padded with zeros to `width`; the sign stands outside the width. -/
def padded (width : ℕ) (n : ℤ) : String :=
  let digits := Nat.toDigits 10 n.natAbs
  String.ofList ((if n < 0 then ['-'] else [])
    ++ List.replicate (width - digits.length) '0' ++ digits)

example : civil 20772 = ⟨2026, 11, 15⟩ ∧ isoWeek 20772 = (2026, 46) := by decide

end Calendar
