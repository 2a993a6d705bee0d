/-!
# Calendar time

Dates follow the Gregorian calendar, extended to all years. A leap second is written as second 59
with a nanosecond of 10⁹ or more. `CivilTime.shift` moves a time by less than a day, which is what
the difference between local time and universal time amounts to.
-/

namespace Ecma119

def isLeapYear (year : Int) : Bool := year % 4 = 0 && (year % 100 ≠ 0 || year % 400 = 0)

/-- The number of days of a month, counted from 1, by the Gregorian rule for leap years. -/
def daysInMonth (year : Int) (month : Nat) : Nat :=
  if month = 2 then (if isLeapYear year then 29 else 28)
  else if month = 4 ∨ month = 6 ∨ month = 9 ∨ month = 11 then 30
  else 31

/-- A date and a time of day, by a clock that is not named. -/
structure CivilTime where
  year : Int
  month : Nat
  day : Nat
  hour : Nat
  minute : Nat
  second : Nat
  nanosecond : Nat
deriving DecidableEq

namespace CivilTime

/-- Whether the fields name a day of the calendar and a time of that day. -/
structure Valid (t : CivilTime) : Prop where
  month_pos : 1 ≤ t.month
  month_le : t.month ≤ 12
  day_pos : 1 ≤ t.day
  day_le : t.day ≤ daysInMonth t.year t.month
  hour_lt : t.hour < 24
  minute_lt : t.minute < 60
  second_lt : t.second < 60
  nanosecond_lt : t.nanosecond < if t.second = 59 then 2000000000 else 1000000000

theorem valid_iff (t : CivilTime) :
    t.Valid ↔ 1 ≤ t.month ∧ t.month ≤ 12 ∧ 1 ≤ t.day ∧ t.day ≤ daysInMonth t.year t.month ∧
      t.hour < 24 ∧ t.minute < 60 ∧ t.second < 60 ∧
      t.nanosecond < if t.second = 59 then 2000000000 else 1000000000 :=
  ⟨fun ⟨h1, h2, h3, h4, h5, h6, h7, h8⟩ => ⟨h1, h2, h3, h4, h5, h6, h7, h8⟩,
    fun ⟨h1, h2, h3, h4, h5, h6, h7, h8⟩ => ⟨h1, h2, h3, h4, h5, h6, h7, h8⟩⟩

instance (t : CivilTime) : Decidable t.Valid := decidable_of_iff' _ t.valid_iff

def dayBefore (t : CivilTime) : CivilTime :=
  if 1 < t.day then { t with day := t.day - 1 }
  else if 1 < t.month then
    { t with month := t.month - 1, day := daysInMonth t.year (t.month - 1) }
  else { t with year := t.year - 1, month := 12, day := 31 }

def dayAfter (t : CivilTime) : CivilTime :=
  if t.day < daysInMonth t.year t.month then { t with day := t.day + 1 }
  else if t.month < 12 then { t with month := t.month + 1, day := 1 }
  else { t with year := t.year + 1, month := 1, day := 1 }

/-- The same day at another second of it, counted from midnight. -/
def atSecond (t : CivilTime) (second : Nat) : CivilTime :=
  { t with hour := second / 3600, minute := second / 60 % 60, second := second % 60 }

/-- The time `seconds` later, or earlier where that is negative, by less than a day. -/
def shift (t : CivilTime) (seconds : Int) : CivilTime :=
  let target : Int := t.hour * 3600 + t.minute * 60 + t.second + seconds
  if target < 0 then t.dayBefore.atSecond (target + 86400).toNat
  else if 86400 ≤ target then t.dayAfter.atSecond (target - 86400).toNat
  else t.atSecond target.toNat

end CivilTime

end Ecma119
