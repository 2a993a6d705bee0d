import Ecma119.Bytes
import Ecma119.Time.Zoned

/-!
# Times of directory records

Seven bytes: years since 1900, month, day, hour, minute, second and zone. All zero means that no
time is given.
-/

namespace Ecma119

structure ShortTime where
  /-- Years since 1900. -/
  year : UInt8
  month : UInt8
  day : UInt8
  hour : UInt8
  minute : UInt8
  second : UInt8
  /-- Quarters of an hour east of universal time. -/
  zone : Int8
deriving DecidableEq

namespace ShortTime

def ofField (f : Field 7) : ShortTime :=
  ⟨f[0], f[1], f[2], f[3], f[4], f[5], f[6].toInt8⟩

def toField (t : ShortTime) : Field 7 :=
  #v[t.year, t.month, t.day, t.hour, t.minute, t.second, t.zone.toUInt8]

def fullYear (t : ShortTime) : Nat := 1900 + t.year.toNat

/-- Whether no time is given: all fields are zero. -/
def isUnset (t : ShortTime) : Bool := t = ⟨0, 0, 0, 0, 0, 0, 0⟩

def clock (t : ShortTime) : CivilTime where
  year := t.fullYear
  month := t.month.toNat
  day := t.day.toNat
  hour := t.hour.toNat
  minute := t.minute.toNat
  second := t.second.toNat
  nanosecond := 0

/-- The time that the fields name, if one is given. -/
def toZoned (t : ShortTime) : Except FormatError (Option ZonedTime) :=
  if t.isUnset then .ok none else (ZonedTime.ofRecorded t.clock t.zone).map some

/-- The fields that record a time of the years 1900 to 2155, its fraction of a second left out. -/
def ofZoned (t : ZonedTime) : Except FormatError ShortTime := do
  let years := t.clock.year - 1900
  if years < 0 ∨ 255 < years then throw .invalidTimestamp
  return {
    year := UInt8.ofNat years.toNat
    month := UInt8.ofNat t.clock.month
    day := UInt8.ofNat t.clock.day
    hour := UInt8.ofNat t.clock.hour
    minute := UInt8.ofNat t.clock.minute
    second := UInt8.ofNat t.clock.second
    zone := ← quartersOfSeconds t.offset }

end ShortTime

/-- The clock by which a recorded time is to be told. -/
inductive TimeBasis where
  /-- The clock of universal time. -/
  | universal
  /-- The clock of the place where it was recorded. -/
  | recorded
deriving DecidableEq

/-- A time by the clock of the given basis. -/
def ZonedTime.by (t : ZonedTime) : TimeBasis → CivilTime
  | .universal => t.universal
  | .recorded => t.clock

/-- The time in a directory record, if one is given. Seven zeros give none, and fields that name no time
are a fault. -/
def decodeShortTime (f : Field 7) : Except FormatError (Option ZonedTime) :=
  (ShortTime.ofField f).toZoned

/-- The time in a directory record by one of two clocks, if one is given. -/
def decodeShortTimeBy (basis : TimeBasis) (f : Field 7) :
    Except FormatError (Option CivilTime) :=
  (decodeShortTime f).map (Option.map fun t => t.by basis)

/-- The field that records a time in a directory record, for the years 1900 to 2155. -/
def encodeShortTime (t : ZonedTime) : Except FormatError (Field 7) :=
  (ShortTime.ofZoned t).map ShortTime.toField

end Ecma119
