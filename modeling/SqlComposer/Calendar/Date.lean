/-!
# Dates and times of day

The proleptic Gregorian calendar over a fixed range of years, without time zone.

* `Date`, `Time`, `DateTime` : checked on construction (`Date.of?`, `Time.of?`);
* `Date.dayNumber`, `Date.ofDayNumber?` : days since 1 January 1970;
* `DateTime.ofUnix?` : from seconds since that day's start;
* `DateTime.later?` : a whole number of seconds later, inside a leap second too.
-/

namespace SqlComposer

/-- Every fourth year is a leap year, but of the full centuries only every fourth. -/
def isLeapYear (year : Int) : Bool :=
  year % 4 == 0 && (year % 100 != 0 || year % 400 == 0)

def daysInMonth (year : Int) (month : Nat) : Nat :=
  if month = 2 then (if isLeapYear year then 29 else 28)
  else if month = 4 ∨ month = 6 ∨ month = 9 ∨ month = 11 then 30
  else 31

namespace Date

def minYear : Int := -262143

def maxYear : Int := 262142

/-- Year, month and day are those of a day of the calendar within its range. -/
def IsValid (year : Int) (month day : Nat) : Prop :=
  (minYear ≤ year ∧ year ≤ maxYear) ∧ (1 ≤ month ∧ month ≤ 12) ∧ 1 ≤ day ∧ day ≤ daysInMonth year month

instance (year : Int) (month day : Nat) : Decidable (IsValid year month day) :=
  inferInstanceAs (Decidable (_ ∧ _))

end Date

/-- A day of the calendar. -/
structure Date where
  year : Int
  month : Nat
  day : Nat
  valid : Date.IsValid year month day
  deriving DecidableEq

namespace Date

/-- The day with this year, month and day of the month, if there is one. -/
def of? (year : Int) (month day : Nat) : Option Date :=
  if h : IsValid year month day then some ⟨year, month, day, h⟩ else none

@[simp] theorem of?_self (d : Date) : of? d.year d.month d.day = some d := by
  simp [of?, d.valid]

/-- Days since 1 January 1970. Years are counted from March, in cycles of 400 years. -/
def dayNumber (d : Date) : Int :=
  let year := if d.month ≤ 2 then d.year - 1 else d.year
  let month := (d.month + 9) % 12
  let yearOfCycle := year % 400
  let dayOfYear := (153 * month + 2) / 5 + d.day - 1
  year / 400 * 146097 + (yearOfCycle * 365 + yearOfCycle / 4 - yearOfCycle / 100 + dayOfYear) - 719468

/-- The day that many days after 1 January 1970, if it lies in the range. -/
def ofDayNumber? (n : Int) : Option Date :=
  let days := n + 719468
  let dayOfCycle := days % 146097
  let yearOfCycle := (dayOfCycle - dayOfCycle / 1460 + dayOfCycle / 36524 - dayOfCycle / 146096) / 365
  let dayOfYear := dayOfCycle - (365 * yearOfCycle + yearOfCycle / 4 - yearOfCycle / 100)
  let month := (5 * dayOfYear + 2) / 153
  let day := dayOfYear - (153 * month + 2) / 5 + 1
  let month := if month < 10 then month + 3 else month - 9
  let year := days / 146097 * 400 + yearOfCycle + (if month ≤ 2 then 1 else 0)
  of? year month.toNat day.toNat

/-- The day before. -/
def pred? (d : Date) : Option Date :=
  ofDayNumber? (d.dayNumber - 1)

/-- The day after. -/
def succ? (d : Date) : Option Date :=
  ofDayNumber? (d.dayNumber + 1)

end Date

namespace Time

/-- A leap second is the second after 59, told by a nanosecond of `10 ^ 9` or more. -/
def IsValid (hour minute second nanosecond : Nat) : Prop :=
  hour < 24 ∧ minute < 60 ∧ second < 60 ∧
    (nanosecond < 1000000000 ∨ (second = 59 ∧ nanosecond < 2000000000))

instance (hour minute second nanosecond : Nat) : Decidable (IsValid hour minute second nanosecond) :=
  inferInstanceAs (Decidable (_ ∧ _))

end Time

/-- A time of day. -/
structure Time where
  hour : Nat
  minute : Nat
  second : Nat
  nanosecond : Nat
  valid : Time.IsValid hour minute second nanosecond
  deriving DecidableEq

namespace Time

/-- The time with these parts, if there is one. -/
def of? (hour minute second nanosecond : Nat) : Option Time :=
  if h : IsValid hour minute second nanosecond then some ⟨hour, minute, second, nanosecond, h⟩ else none

@[simp] theorem of?_self (t : Time) : of? t.hour t.minute t.second t.nanosecond = some t := by
  simp [of?, t.valid]

/-- The start of a day. -/
def midnight : Time :=
  ⟨0, 0, 0, 0, by decide⟩

/-- Whole seconds since the start of the day. -/
def seconds (t : Time) : Nat :=
  t.hour * 3600 + t.minute * 60 + t.second

end Time

/-- A day and a time on it. -/
structure DateTime where
  date : Date
  time : Time
  deriving DecidableEq

namespace DateTime

/-- The start of a day. -/
def ofDate (d : Date) : DateTime :=
  ⟨d, Time.midnight⟩

/-- The moment `seconds` after the start of 1 January 1970, and `nanosecond` within that second. -/
def ofSeconds? (seconds : Int) (nanosecond : Nat) : Option DateTime := do
  let ofDay := (seconds % 86400).toNat
  let date ← Date.ofDayNumber? (seconds / 86400)
  let time ← Time.of? (ofDay / 3600) (ofDay / 60 % 60) (ofDay % 60) nanosecond
  some ⟨date, time⟩

/-- The moment `seconds` after the start of 1 January 1970. -/
def ofUnix? (seconds : Int) : Option DateTime :=
  ofSeconds? seconds 0

/-- The moment a whole number of seconds later. -/
def later? (t : DateTime) (seconds : Int) : Option DateTime :=
  ofSeconds? (t.date.dayNumber * 86400 + t.time.seconds + seconds) t.time.nanosecond

end DateTime

end SqlComposer
