import Zos.Time.Timestamp

/-!
# Capture dates

`parse_capture_date` of `apps/photostaff/src/media.rs`. A text that the `time` crate parses as
RFC 3339 is formatted again by it; of any other text the first nineteen characters are kept. The
crate is a parameter. A wall clock is counted in seconds from 0000-01-01T00:00:00.
-/

namespace Zos.Photostaff

open Zos.Lib Zos.Time

structure OffsetDateTime where
  wall : Nat
  nanosecond : Nat
  offsetMinutes : Int
  deriving DecidableEq, Repr

/-- In seconds, from the beginning of the year zero in UTC. -/
def OffsetDateTime.instant (d : OffsetDateTime) : Int := d.wall - 60 * d.offsetMinutes

/-- The parser and the formatter of RFC 3339, and what is needed of the texts. -/
structure TimeCrate where
  parse : List Char → Option OffsetDateTime
  format : OffsetDateTime → Option (List Char)
  zulu : ∀ date text, format date = some text →
    (text.getLast? = some 'Z' ↔ date.offsetMinutes = 0)
  ordered : ∀ date date' text text', format date = some text → format date' = some text' →
    date.wall < date'.wall → text < text'

def wallDate (wall : Nat) : Nat × Nat :=
  locate daysInYear (wall / secondsPerDay) 0 (wall / secondsPerDay)

/-- The date and the time of a wall clock with these separators. -/
def wallText (dash separator : Char) (wall : Nat) : List Char :=
  let inYear := wallDate wall
  let inMonth := monthAndDay inYear.1 inYear.2
  decimal 4 inYear.1 ++ dash :: (decimal 2 inMonth.1 ++ dash :: (decimal 2 (inMonth.2 + 1) ++
    separator :: clockText (wall % secondsPerDay)))

def offsetText (minutes : Int) : List Char :=
  if minutes = 0 then ['Z']
  else (if minutes < 0 then '-' else '+') ::
    (decimal 2 (minutes.natAbs / 60) ++ ':' :: decimal 2 (minutes.natAbs % 60))

/-- RFC 3339, for years of at most four digits. -/
def OffsetDateTime.format (d : OffsetDateTime) : Option (List Char) :=
  if (wallDate d.wall).1 ≤ 9999 then
    some (wallText '-' 'T' d.wall ++
      (fractionText .rust d.nanosecond ++ offsetText d.offsetMinutes))
  else none

/-- `char::is_whitespace`. -/
def isWhitespace (c : Char) : Bool :=
  [0x09, 0x0a, 0x0b, 0x0c, 0x0d, 0x20, 0x85, 0xa0, 0x1680, 0x2028, 0x2029, 0x202f, 0x205f,
    0x3000].contains c.toNat || (0x2000 ≤ c.toNat && c.toNat ≤ 0x200a)

def trimmed (value : List Char) : List Char :=
  ((value.dropWhile isWhitespace).reverse.dropWhile isWhitespace).reverse

def utf8Len (text : List Char) : Nat := (text.map Char.utf8Size).sum

/-- `text.get(..n)`, in bytes. -/
def getBytes (text : List Char) (n : Nat) : Option (List Char) :=
  text.inits.find? (utf8Len · = n)

def spacesToT (text : List Char) : List Char := text.map fun c => if c = ' ' then 'T' else c

/-- Colons of the date become dashes. -/
def dashes (text : List Char) : List Char :=
  if text[4]? = some ':' ∧ text[7]? = some ':' then (text.set 4 '-').set 7 '-' else text

structure CaptureDate where
  utc : Option (List Char)
  wallClock : List Char
  offset : Option Int
  deriving DecidableEq, Repr

def parseCaptureDate (crate : TimeCrate) (value : List Char) : Option CaptureDate := do
  match crate.parse (trimmed value) with
  | some date =>
      return ⟨crate.format date, spacesToT (← getBytes (trimmed value) 19),
        some date.offsetMinutes⟩
  | none =>
      let wallClock := (dashes (spacesToT (trimmed value))).take 19
      if utf8Len wallClock = 19 then return ⟨none, wallClock, none⟩ else none

/-- `taken_at` of `process_media`: the candidates are what `metadata_string` finds at the places
`capture_time` looks at, in its order. -/
def takenAt (crate : TimeCrate) (isoFromNs : Int → List Char) (candidates : List (List Char))
    (mtimeNs : Int) : List Char :=
  match candidates.findSome? (parseCaptureDate crate) with
  | some date => date.utc.getD date.wallClock
  | none => isoFromNs mtimeNs

end Zos.Photostaff
