import SqlComposer.Calendar.Date
import SqlComposer.Number.Decimal

/-!
# ISO text of dates and times

* `Date.iso` : year, month and day joined by hyphens; a year outside 0 to 9999 has a sign;
* `DateTime.iso` : date and time joined by a space, with milliseconds or microseconds if there are any;
* `Time.toMicroseconds` : a time without what is below a microsecond.
-/

namespace SqlComposer

open Decimal (padded natText)

/-- Four digits, or a sign and at least four digits outside 0 to 9999. -/
def yearText : Int → List Char
  | .ofNat y => if y ≤ 9999 then padded 4 y else '+' :: padded 4 y
  | .negSucc y => '-' :: padded 4 (y + 1)

/-- The date as year, month and day. -/
def Date.iso (d : Date) : List Char :=
  yearText d.year ++ '-' :: padded 2 d.month ++ '-' :: padded 2 d.day

namespace Time

/-- The time cut to whole microseconds. -/
def toMicroseconds (t : Time) : Time :=
  ⟨t.hour, t.minute, t.second, t.nanosecond / 1000 * 1000, by
    obtain ⟨h, m, s, n⟩ := t.valid
    refine ⟨h, m, s, ?_⟩
    have := Nat.div_mul_le_self t.nanosecond 1000
    omega⟩

/-- The second as it is shown: a leap second is number 60. -/
def shownSecond (t : Time) : Nat :=
  t.second + t.nanosecond / 1000000000

/-- The fraction of the second in three, six or nine places, nothing if it is zero. -/
def fractionText (t : Time) : List Char :=
  let n := t.nanosecond % 1000000000
  if n = 0 then []
  else if n % 1000000 = 0 then '.' :: padded 3 (n / 1000000)
  else if n % 1000 = 0 then '.' :: padded 6 (n / 1000)
  else '.' :: padded 9 n

/-- Hour, minute and second, and the fraction of the second. -/
def iso (t : Time) : List Char :=
  padded 2 t.hour ++ ':' :: padded 2 t.minute ++ ':' :: padded 2 t.shownSecond ++ t.fractionText

end Time

/-- The date and the time cut to microseconds, the finest part that every dialect takes. -/
def DateTime.iso (t : DateTime) : List Char :=
  t.date.iso ++ ' ' :: t.time.toMicroseconds.iso

end SqlComposer
