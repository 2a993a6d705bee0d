import Ecma119.Numeric
import Ecma119.Time.Zoned

/-!
# Times of volume descriptors

Sixteen decimal digits, for year, month, day, hour, minute, second and hundredths of a second, and a
byte for the zone. Sixteen zeros, as digits or as NULs, mean that no time is given.
-/

namespace Ecma119

structure LongTime where
  year : UInt16
  month : UInt8
  day : UInt8
  hour : UInt8
  minute : UInt8
  second : UInt8
  hundredths : UInt8
  /-- Quarters of an hour east of universal time. -/
  zone : Int8
deriving DecidableEq

/-! ## Decimal digits -/

/-- The number that decimal digits write, behind the digits of `value`. -/
def decimalValue (value : Nat) : Bytes → Except FormatError Nat
  | [] => .ok value
  | b :: rest =>
    if 0x30 ≤ b ∧ b ≤ 0x39 then decimalValue (value * 10 + (b.toNat - 0x30)) rest
    else .error .invalidTimestamp

/-- The last `width` decimal digits of a number, with zeros in front where it has fewer. -/
def decimalDigits : (width : Nat) → (value : Nat) → Bytes
  | 0, _ => []
  | width + 1, value => decimalDigits width (value / 10) ++ [UInt8.ofNat (0x30 + value % 10)]

@[simp] theorem length_decimalDigits (width value : Nat) :
    (decimalDigits width value).length = width := by
  induction width generalizing value with
  | zero => rfl
  | succ width ih => simp [decimalDigits, ih]

namespace LongTime

def number (width : Nat) : Decoder Nat := do
  let digits ← Decoder.bytes width
  decimalValue 0 digits

/-- The eight fields, in the order in which they are recorded. -/
def decoder : Decoder LongTime := do
  return {
    year := UInt16.ofNat (← number 4)
    month := UInt8.ofNat (← number 2)
    day := UInt8.ofNat (← number 2)
    hour := UInt8.ofNat (← number 2)
    minute := UInt8.ofNat (← number 2)
    second := UInt8.ofNat (← number 2)
    hundredths := UInt8.ofNat (← number 2)
    zone := ← Decoder.int8 }

/-- Whether the field gives no time, whatever its zone: digits zero and bytes zero may stand in any
order. -/
def isUnset (f : Field 17) : Bool := (f.toList.take 16).all fun b => b == 0x30 || b == 0

def unset : Field 17 := Field.ofBytes 17 (List.replicate 16 0x30) 0

/-- The fields that seventeen bytes record, if a time is given. -/
def ofField (f : Field 17) : Except FormatError (Option LongTime) :=
  if isUnset f then .ok none else (decoder.decode f.toList).map some

/-- The seventeen bytes; of a number that is too long only its last digits are recorded. -/
def toField (t : LongTime) : Field 17 :=
  ⟨(decimalDigits 4 t.year.toNat ++ decimalDigits 2 t.month.toNat ++ decimalDigits 2 t.day.toNat ++
      decimalDigits 2 t.hour.toNat ++ decimalDigits 2 t.minute.toNat ++
      decimalDigits 2 t.second.toNat ++ decimalDigits 2 t.hundredths.toNat ++
      [t.zone.toUInt8]).toArray, by simp⟩

def clock (t : LongTime) : CivilTime where
  year := t.year.toNat
  month := t.month.toNat
  day := t.day.toNat
  hour := t.hour.toNat
  minute := t.minute.toNat
  second := t.second.toNat
  nanosecond := t.hundredths.toNat * 10000000

def toZoned (t : LongTime) : Except FormatError ZonedTime := ZonedTime.ofRecorded t.clock t.zone

/-- The fields that record a time of the years 1 to 9999. Its fraction of a second is cut down to
hundredths, and a leap second to the last of them. -/
def ofZoned (t : ZonedTime) : Except FormatError LongTime := do
  if t.clock.year < 1 ∨ 9999 < t.clock.year then throw .invalidTimestamp
  return {
    year := UInt16.ofNat t.clock.year.toNat
    month := UInt8.ofNat t.clock.month
    day := UInt8.ofNat t.clock.day
    hour := UInt8.ofNat t.clock.hour
    minute := UInt8.ofNat t.clock.minute
    second := UInt8.ofNat t.clock.second
    hundredths := UInt8.ofNat (min (t.clock.nanosecond / 1000000) 999 / 10)
    zone := ← quartersOfSeconds t.offset }

end LongTime

/-- The time in a volume descriptor, if one is given. Sixteen zeros give none, and digits that name no
time are a fault. -/
def decodeLongTime (f : Field 17) : Except FormatError (Option ZonedTime) := do
  match ← LongTime.ofField f with
  | none => return none
  | some t => return some (← t.toZoned)

/-- The field that records a time in a volume descriptor, or that there is none. -/
def encodeLongTime : Option ZonedTime → Except FormatError (Field 17)
  | none => .ok LongTime.unset
  | some t => (LongTime.ofZoned t).map LongTime.toField

end Ecma119
