import Zos.Lib.Blocks
import Zos.Lib.Text

/-!
# The timestamps in the database

Every time column holds a text, and SQLite compares the columns byte by byte.
Two programs write them. The Rust daemons format `OffsetDateTime` values as
RFC 3339, which prints up to nine fractional digits, drops trailing zeros and
omits the dot when nothing is left. The TypeScript side calls `toISOString`,
which always prints three digits and cuts the rest off.

An instant is a number of nanoseconds since 1970-01-01T00:00:00Z; the civil
date comes from walking the years and then the months.
-/

namespace Zos.Time

open Zos.Lib

def nanosPerSecond : Nat := 1000000000

def secondsPerDay : Nat := 86400

def isLeapYear (year : Nat) : Bool :=
  year % 4 == 0 && (year % 100 != 0 || year % 400 == 0)

def daysInYear (year : Nat) : Nat :=
  if isLeapYear year then 366 else 365

def daysInMonth (year month : Nat) : Nat :=
  match month with
  | 2 => if isLeapYear year then 29 else 28
  | 4 | 6 | 9 | 11 => 30
  | _ => 31

/-- The year of a day counted from 1970-01-01, and the day of that year. -/
def yearAndDay (day : Nat) : Nat × Nat :=
  locate daysInYear day 1970 day

/-- The month of a day of the year, and the day of that month, both counted
as the calendar does for the month and from zero for the day. -/
def monthAndDay (year dayOfYear : Nat) : Nat × Nat :=
  locate (daysInMonth year) dayOfYear 1 dayOfYear

/-- The calendar year an instant falls in. -/
def year (t : Nat) : Nat :=
  (yearAndDay (t / nanosPerSecond / secondsPerDay)).1

/-- `hh:mm:ss` of a second of the day. -/
def clockText (second : Nat) : List Char :=
  decimal 2 (second / 3600) ++
    ':' :: (decimal 2 (second % 3600 / 60) ++ ':' :: decimal 2 (second % 60))

/-- `yyyy-mm-dd`, closed by the `T`, of a day counted from 1970-01-01. -/
def dateText (day : Nat) : List Char :=
  let inYear := yearAndDay day
  let inMonth := monthAndDay inYear.1 inYear.2
  decimal 4 inYear.1 ++ '-' :: (decimal 2 inMonth.1 ++
    '-' :: (decimal 2 (inMonth.2 + 1) ++ ['T']))

/-- The part of a timestamp before the fraction. -/
def dateTimeText (second : Nat) : List Char :=
  dateText (second / secondsPerDay) ++ clockText (second % secondsPerDay)

/-- Who writes a column. -/
inductive Writer where
  | rust
  | javascript
  deriving DecidableEq, Repr

/-- The instant a writer stores: `toISOString` cuts to milliseconds. -/
def truncate : Writer → Nat → Nat
  | .rust, t => t
  | .javascript, t => t / 1000000 * 1000000

/-- The places that are left of `k` decimal places holding `n` when the
trailing zeros are dropped. -/
def significantDigits : Nat → Nat → Nat
  | 0, _ => 0
  | k + 1, n => if n % 10 = 0 then significantDigits k (n / 10) else k + 1

/-- How many fractional digits a writer prints. -/
def fractionDigits : Writer → Nat → Nat
  | .rust, t => significantDigits 9 (t % nanosPerSecond)
  | .javascript, _ => 3

/-- The fraction as printed, dot included, or nothing. -/
def fractionText (writer : Writer) (t : Nat) : List Char :=
  if fractionDigits writer t = 0 then []
  else '.' :: decimalCut 9 (fractionDigits writer t) (t % nanosPerSecond)

/-- A timestamp column as `writer` fills it in at `t`. -/
def iso (writer : Writer) (t : Nat) : List Char :=
  dateTimeText (t / nanosPerSecond) ++ (fractionText writer t ++ ['Z'])

/-- `now_iso` of the Rust daemons. -/
def nowIso (now : Nat) : List Char := iso .rust now

/-- `future_iso`: the clock plus a duration. -/
def futureIso (now duration : Nat) : List Char := iso .rust (now + duration)

/-- `Date.prototype.toISOString`. -/
def toISOString (now : Nat) : List Char := iso .javascript now

example : String.ofList (nowIso 1500000000) = "1970-01-01T00:00:01.5Z" := by
  decide +kernel

example : String.ofList (toISOString 68169601500000000) =
    "1972-02-29T00:00:01.500Z" := by decide +kernel

/-- `lease_expires_at <= now` as SQLite evaluates it on the two texts. -/
def leaseExpired (leaseExpiresAt now : List Char) : Bool :=
  decide (leaseExpiresAt ≤ now)

end Zos.Time
