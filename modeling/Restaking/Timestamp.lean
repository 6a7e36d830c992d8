import Restaking.Text.Numeral

/-!
# Points in time

A point in time is a number of seconds since the start of 1970 (UTC), possibly negative, with
nanoseconds. A leap second is counted as a second billion of nanoseconds. It comes after the last
second of a minute, but a second that is given other nanoseconds may be extended wherever it is. The
text of a point in time is that of RFC 3339, in the proleptic Gregorian calendar:

* a year from 0 to 9999 has four digits; any other year has a sign and at least four;
* the fraction has no, three, six or nine digits, the fewest that are exact;
* a leap second shows as the second after the one that it extends: second 60 at the end of a minute,
  and the next second anywhere else.
-/

namespace Restaking

/-- A day of the proleptic Gregorian calendar. -/
structure Date where
  year : Int
  month : Nat
  day : Nat
  deriving DecidableEq

namespace Date

/-- The date of the day with the given number, the first of January 1970 having number zero.

Days are counted in eras of 400 years from the first of March of year zero, so that the day a
leap year adds is the last one of its year. -/
def ofDayNumber (number : Int) : Date :=
  let shifted := number + 719468
  let era := shifted / 146097
  let dayOfEra := (shifted % 146097).toNat
  let yearOfEra := (dayOfEra - dayOfEra / 1460 + dayOfEra / 36524 - dayOfEra / 146096) / 365
  let dayOfYear := dayOfEra - (365 * yearOfEra + yearOfEra / 4 - yearOfEra / 100)
  let marchMonth := (5 * dayOfYear + 2) / 153
  let month := if marchMonth < 10 then marchMonth + 3 else marchMonth - 9
  { year := era * 400 + yearOfEra + (if month ≤ 2 then 1 else 0)
    month := month
    day := dayOfYear - (153 * marchMonth + 2) / 5 + 1 }

/-- The digits of a year: four if they are enough and the year is not negative, and else a sign
with at least four. -/
def yearChars (year : Int) : List Char :=
  if 0 ≤ year ∧ year ≤ 9999 then Numeral.padded 4 year.toNat
  else (if year < 0 then '-' else '+') :: Numeral.padded 4 year.natAbs

/-- Year, month and day with hyphens between them. -/
def chars (d : Date) : List Char :=
  yearChars d.year ++ '-' :: (Numeral.padded 2 d.month ++ '-' :: Numeral.padded 2 d.day)

end Date

/-- A point in time. -/
structure Timestamp where
  /-- The seconds since the start of 1970. -/
  seconds : Int
  /-- The nanoseconds after the last full second. -/
  nanos : Nat
  /-- A second and a leap second at most. -/
  nanos_lt : nanos < 2000000000
  deriving DecidableEq

namespace Timestamp

/-- A leap second, if there is one, extends the last second of a minute. -/
def LeapsOnMinute (t : Timestamp) : Prop := 1000000000 ≤ t.nanos → t.seconds % 60 = 59

instance (t : Timestamp) : Decidable t.LeapsOnMinute := inferInstanceAs (Decidable (_ → _))

/-- The beginning of a second. -/
def ofSeconds (seconds : Int) : Timestamp := ⟨seconds, 0, by decide⟩

/-- The point in time with other nanoseconds after the same second, if there can be as many. -/
def withNanos? (t : Timestamp) (nanos : Nat) : Option Timestamp :=
  if h : nanos < 2000000000 then some ⟨t.seconds, nanos, h⟩ else none

/-- The point in time with the given seconds and nanoseconds. Leap seconds are accepted at the end
of a minute only. -/
def ofParts? (seconds : Int) (nanos : Nat) : Option Timestamp :=
  ((ofSeconds seconds).withNanos? nanos).filter (·.LeapsOnMinute)

/-- The shortest exact fraction among no, three, six and nine digits. -/
def fractionChars (nanos : Nat) : List Char :=
  if nanos = 0 then []
  else if nanos % 1000000 = 0 then '.' :: Numeral.padded 3 (nanos / 1000000)
  else if nanos % 1000 = 0 then '.' :: Numeral.padded 6 (nanos / 1000)
  else '.' :: Numeral.padded 9 nanos

/-- Hours, minutes and seconds of a day, and the fraction. -/
def clockChars (secondOfDay nanos : Nat) : List Char :=
  let second := secondOfDay % 60 + nanos / 1000000000
  Numeral.padded 2 (secondOfDay / 3600) ++ ':' :: (Numeral.padded 2 (secondOfDay / 60 % 60)
    ++ ':' :: (Numeral.padded 2 second ++ fractionChars (nanos % 1000000000)))

/-- The RFC 3339 text of a point in time. -/
def text (t : Timestamp) : String :=
  String.ofList ((Date.ofDayNumber (t.seconds / 86400)).chars
    ++ 'T' :: (clockChars (t.seconds % 86400).toNat t.nanos ++ ['Z']))

end Timestamp

end Restaking
