import Ecma119.Error
import Ecma119.Time.Calendar

/-!
# Zoned time

A recorded time is local time together with its distance from universal time. The distance is
recorded in quarters of an hour, from twelve hours behind to thirteen hours ahead.
-/

namespace Ecma119

/-- A local time and its distance from universal time, in seconds and positive to the east. -/
structure ZonedTime where
  clock : CivilTime
  offset : Int
  clock_valid : clock.Valid
  offset_bound : -86400 < offset ∧ offset < 86400
deriving DecidableEq

namespace ZonedTime

/-- The zoned time with these parts, if they make one. -/
def ofParts? (clock : CivilTime) (offset : Int) : Option ZonedTime :=
  if h : clock.Valid ∧ -86400 < offset ∧ offset < 86400 then some ⟨clock, offset, h.1, h.2⟩
  else none

/-- The same moment by the clock of universal time. -/
def universal (t : ZonedTime) : CivilTime := t.clock.shift (-t.offset)

end ZonedTime

/-! ## Distances in quarters of an hour -/

/-- Whether so many quarters are a distance that can be recorded. -/
def isZoneQuarter (quarters : Int) : Bool := -48 ≤ quarters && quarters ≤ 52

/-- The distance in seconds behind a recorded one. -/
def secondsOfQuarters (quarters : Int8) : Except FormatError Int :=
  if isZoneQuarter quarters.toInt then .ok (quarters.toInt * 900) else .error .invalidTimestamp

/-- The recorded form of a distance in seconds, which has to be whole quarters. -/
def quartersOfSeconds (seconds : Int) : Except FormatError Int8 :=
  if seconds % 900 = 0 ∧ isZoneQuarter (seconds / 900) then .ok (Int8.ofInt (seconds / 900))
  else .error .invalidTimestamp

/-- The zoned time of a recorded local time and a recorded distance. -/
def ZonedTime.ofRecorded (clock : CivilTime) (quarters : Int8) : Except FormatError ZonedTime := do
  let offset ← secondsOfQuarters quarters
  match ZonedTime.ofParts? clock offset with
  | some t => .ok t
  | none => .error .invalidTimestamp

end Ecma119
