import Ecma119.Proofs.Time.Digits
import Ecma119.Time.Short
import Mathlib.Tactic.IntervalCases

/-!
# Times and what records them

Each of the two forms records a time by its local clock and its distance from universal time. A time is
written as some fields exactly if it reads from these fields, once its second is cut down to what the
form can hold: `ShortTime.ofZoned_eq_ok` and `LongTime.ofZoned_eq_ok` say so of the fields,
`encodeShortTime_eq_ok` and `encodeLongTime_eq_ok` of the bytes. The long form knows one exception. Its
digits have room for the year 0, which is read, but never written.
-/

namespace Ecma119

/-! ## Distances from universal time -/

/-- Zones go from 12 hours behind universal time to 13 hours ahead of it, in quarters of an hour. -/
theorem isZoneQuarter_iff {quarters : Int} :
    isZoneQuarter quarters = true ↔ -48 ≤ quarters ∧ quarters ≤ 52 := by
  simp [isZoneQuarter]

/-- A zone is accepted exactly if it is in this range, and then it stands for 900 seconds for each
quarter. -/
theorem secondsOfQuarters_eq_ok {quarters : Int8} {seconds : Int} :
    secondsOfQuarters quarters = .ok seconds ↔
      (-48 ≤ quarters.toInt ∧ quarters.toInt ≤ 52) ∧ seconds = quarters.toInt * 900 := by
  rw [secondsOfQuarters, ← isZoneQuarter_iff]
  split
  · next h => simp [h, eq_comm]
  · next h => simp [h]

/-- A distance is recorded as the quarters that it is read from, and as no others. -/
theorem quartersOfSeconds_eq_ok {seconds : Int} {quarters : Int8} :
    quartersOfSeconds seconds = .ok quarters ↔ secondsOfQuarters quarters = .ok seconds := by
  rw [secondsOfQuarters_eq_ok, quartersOfSeconds]
  split
  · next h =>
    obtain ⟨hwhole, hrange⟩ := h
    rw [isZoneQuarter_iff] at hrange
    rw [Except.ok.injEq]
    constructor
    · rintro rfl
      rw [Int8.toInt_ofInt_of_le (by omega) (by omega)]
      omega
    · rintro ⟨-, rfl⟩
      rw [Int.mul_ediv_cancel _ (by decide), Int8.ofInt_toInt]
  · next h =>
    refine ⟨fun herror => (nomatch herror), ?_⟩
    rintro ⟨hrange, rfl⟩
    rw [Int.mul_ediv_cancel _ (by decide), isZoneQuarter_iff] at h
    omega

/-- The distances that can be recorded: whole quarters of an hour, from twelve hours behind to thirteen
hours ahead. -/
def IsRecordableDistance (seconds : Int) : Prop :=
  900 ∣ seconds ∧ -12 * 3600 ≤ seconds ∧ seconds ≤ 13 * 3600

/-- A distance can be recorded exactly if it is that of some zone which is accepted. -/
theorem isRecordableDistance_iff {seconds : Int} :
    IsRecordableDistance seconds ↔ ∃ quarters, secondsOfQuarters quarters = .ok seconds := by
  simp only [secondsOfQuarters_eq_ok]
  constructor
  · rintro ⟨⟨quarters, rfl⟩, hlow, hhigh⟩
    refine ⟨Int8.ofInt quarters, ?_⟩
    rw [Int8.toInt_ofInt_of_le (by omega) (by omega)]
    omega
  · rintro ⟨quarters, hrange, rfl⟩
    exact ⟨Int.dvd_mul_left .., by omega, by omega⟩

/-- What is made of the quarters is there if the distance can be recorded, and only then. -/
theorem exists_quarters_bind_eq_ok {α : Type} (make : Int8 → α) {seconds : Int} :
    (∃ a, (quartersOfSeconds seconds >>= fun quarters => pure (make quarters)) = .ok a) ↔
      IsRecordableDistance seconds := by
  rw [isRecordableDistance_iff]
  simp only [except_bind_eq_ok_iff, quartersOfSeconds_eq_ok]
  constructor
  · rintro ⟨a, quarters, hquarters, -⟩
    exact ⟨quarters, hquarters⟩
  · rintro ⟨quarters, hquarters⟩
    exact ⟨_, quarters, hquarters, rfl⟩

/-! ## Clocks -/

theorem daysInMonth_le (year : Int) (month : Nat) : daysInMonth year month ≤ 31 := by
  unfold daysInMonth
  split_ifs <;> decide

structure CivilTime.IsBytes (t : CivilTime) (month day hour minute second : UInt8) : Prop where
  month_eq : month.toNat = t.month
  day_eq : day.toNat = t.day
  hour_eq : hour.toNat = t.hour
  minute_eq : minute.toNat = t.minute
  second_eq : second.toNat = t.second

/-- The parts of a valid time below the year each fit in a byte. -/
theorem CivilTime.Valid.isBytes {t : CivilTime} (h : t.Valid) :
    t.IsBytes (.ofNat t.month) (.ofNat t.day) (.ofNat t.hour) (.ofNat t.minute)
      (.ofNat t.second) := by
  have hbyte (n : Nat) (hn : n < 256) : (UInt8.ofNat n).toNat = n := UInt8.toNat_ofNat_of_lt' hn
  have hday := Nat.le_trans h.day_le (daysInMonth_le ..)
  have hmonth := h.month_le
  have hhour := h.hour_lt
  have hminute := h.minute_lt
  have hsecond := h.second_lt
  constructor <;> exact hbyte _ (by omega)

namespace ZonedTime

variable {z : ZonedTime}

theorem ofParts?_eq_some {clock : CivilTime} {offset : Int} :
    ofParts? clock offset = some z ↔ z.clock = clock ∧ z.offset = offset := by
  rw [ofParts?]
  constructor
  · intro h
    split at h
    · cases h
      exact ⟨rfl, rfl⟩
    · cases h
  · rintro ⟨rfl, rfl⟩
    rw [dif_pos ⟨z.clock_valid, z.offset_bound⟩]

/-- A time is read if its clock is recorded, and its distance from universal time. -/
theorem ofRecorded_eq_ok {clock : CivilTime} {quarters : Int8} :
    ofRecorded clock quarters = .ok z ↔
      z.clock = clock ∧ secondsOfQuarters quarters = .ok z.offset := by
  rw [ofRecorded, except_bind_eq_ok_iff]
  constructor
  · rintro ⟨offset, hoffset, hparts⟩
    split at hparts
    · next t hsome =>
      cases hparts
      obtain ⟨hclock, rfl⟩ := ofParts?_eq_some.mp hsome
      exact ⟨hclock, hoffset⟩
    · cases hparts
  · rintro ⟨hclock, hoffset⟩
    refine ⟨z.offset, hoffset, ?_⟩
    rw [ofParts?_eq_some.mpr ⟨hclock, rfl⟩]

def withNanosecond (z : ZonedTime) (nanosecond : Nat) (h : nanosecond < 1000000000) : ZonedTime where
  clock := { z.clock with nanosecond }
  offset := z.offset
  clock_valid := { z.clock_valid with
    nanosecond_lt := by
      dsimp only
      split <;> omega }
  offset_bound := z.offset_bound

def toSecond (z : ZonedTime) : ZonedTime := z.withNanosecond 0 (by decide)

/-- The time with the fraction of its second cut down to hundredths, a leap second to the last of
them. -/
def toHundredth (z : ZonedTime) : ZonedTime :=
  z.withNanosecond
    (if z.clock.nanosecond < 1000000000 then z.clock.nanosecond / 10000000 * 10000000
      else 990000000)
    (by split <;> omega)

theorem withNanosecond_eq_self {nanosecond : Nat} (h : nanosecond < 1000000000)
    (heq : nanosecond = z.clock.nanosecond) : z.withNanosecond nanosecond h = z := by
  subst heq
  rfl

end ZonedTime

/-! ## Times of directory records -/

namespace ShortTime

variable {t : ShortTime} {z : ZonedTime}

/-- A time is read exactly if its clock is recorded, and its distance; all zeros are no clock. -/
theorem toZoned_eq_ok_some :
    t.toZoned = .ok (some z) ↔ z.clock = t.clock ∧ secondsOfQuarters t.zone = .ok z.offset := by
  rw [toZoned]
  split
  -- Where no time is given there is no month.
  · next hunset =>
    obtain rfl : t = ⟨0, 0, 0, 0, 0, 0, 0⟩ := by simpa [isUnset] using hunset
    refine ⟨fun h => (nomatch h), fun ⟨hclock, _⟩ => ?_⟩
    have hmonth := z.clock_valid.month_pos
    rw [hclock] at hmonth
    exact absurd hmonth (by decide)
  · rw [map_eq_ok]
    simp only [Option.some.injEq, exists_eq_right, ZonedTime.ofRecorded_eq_ok]

/-- A time is written as the fields from which it is read without its fraction of a second. -/
theorem ofZoned_eq_ok : ofZoned z = .ok t ↔ t.toZoned = .ok (some z.toSecond) := by
  rw [toZoned_eq_ok_some, ofZoned]
  dsimp only
  split
  · next hyears =>
    refine ⟨fun h => (nomatch h), fun ⟨hclock, _⟩ => ?_⟩
    have hyear : z.clock.year = (1900 + t.year.toNat : Nat) := congrArg CivilTime.year hclock
    have hlt := t.year.toNat_lt
    omega
  · next hyears =>
    rw [except_bind_eq_ok_iff]
    simp only [quartersOfSeconds_eq_ok]
    have hbytes := z.clock_valid.isBytes
    constructor
    · rintro ⟨zone, hzone, hfields⟩
      obtain rfl := Except.ok.inj hfields
      have hyear : ((1900 + (UInt8.ofNat (z.clock.year - 1900).toNat).toNat : Nat) : Int) =
          z.clock.year := by
        rw [UInt8.toNat_ofNat_of_lt' (by rw [UInt8.size]; omega)]
        omega
      refine ⟨?_, hzone⟩
      simp only [ZonedTime.toSecond, ZonedTime.withNanosecond, clock, fullYear, hyear,
        hbytes.month_eq, hbytes.day_eq, hbytes.hour_eq, hbytes.minute_eq, hbytes.second_eq]
    · rintro ⟨hclock, hzone⟩
      refine ⟨t.zone, hzone, congrArg Except.ok ?_⟩
      simp only [ZonedTime.toSecond, ZonedTime.withNanosecond, clock, fullYear,
        CivilTime.mk.injEq] at hclock
      obtain ⟨hyear, hmonth, hday, hhour, hminute, hsecond, -⟩ := hclock
      have hyears : (z.clock.year - 1900).toNat = t.year.toNat := by omega
      simp [hyears, hmonth, hday, hhour, hminute, hsecond]

/-- A time has a short form exactly if its year is from 1900 to 2155 and its zone can be recorded. -/
theorem exists_ofZoned_eq_ok : (∃ t, ofZoned z = .ok t) ↔
    1900 ≤ z.clock.year ∧ z.clock.year ≤ 2155 ∧ IsRecordableDistance z.offset := by
  rw [ofZoned]
  split
  · next hyears =>
    refine ⟨fun ⟨_, h⟩ => (nomatch h), fun h => ?_⟩
    omega
  · next hyears =>
    rw [and_iff_right (by omega), and_iff_right (by omega)]
    exact exists_quarters_bind_eq_ok _

/-- The bytes are those of the fields, and the fields those of the bytes, so that nothing is lost in
between. -/
theorem toField_ofField (f : Field 7) : (ofField f).toField = f := by
  refine Vector.ext fun i hi => ?_
  interval_cases i <;> simp [ofField, toField]

/-- The short form of a time is had back from the seven bytes that it is stored in. -/
theorem ofField_toField (t : ShortTime) : ofField t.toField = t := by
  simp [ofField, toField]

end ShortTime

/-- **A time is written as the bytes from which it is read** without its fraction of a second. -/
theorem encodeShortTime_eq_ok {z : ZonedTime} {f : Field 7} :
    encodeShortTime z = .ok f ↔ decodeShortTime f = .ok (some z.toSecond) := by
  rw [decodeShortTime, ← ShortTime.ofZoned_eq_ok, encodeShortTime, map_eq_ok]
  constructor
  · rintro ⟨t, ht, rfl⟩
    rwa [ShortTime.ofField_toField]
  · intro h
    exact ⟨_, h, ShortTime.toField_ofField f⟩

/-! ## Times of volume descriptors -/

namespace LongTime

variable {t : LongTime} {z : ZonedTime}

/-- A short form stands for its clock and the distance of its zone, if that is accepted. -/
theorem toZoned_eq_ok :
    t.toZoned = .ok z ↔ z.clock = t.clock ∧ secondsOfQuarters t.zone = .ok z.offset :=
  ZonedTime.ofRecorded_eq_ok

/-- The numbers of a time have two digits each, but for its year, which has four. -/
theorem fits_of_clock (hclock : z.clock = t.clock) (hyear : z.clock.year ≤ 9999)
    (hfraction : z.clock.nanosecond < 1000000000) : t.Fits := by
  have hmonth := z.clock_valid.month_le
  have hday := Nat.le_trans z.clock_valid.day_le (daysInMonth_le ..)
  have hhour := z.clock_valid.hour_lt
  have hminute := z.clock_valid.minute_lt
  have hsecond := z.clock_valid.second_lt
  rw [hclock] at hyear hfraction hmonth hday hhour hminute hsecond
  dsimp only [clock] at hyear hfraction hmonth hday hhour hminute hsecond
  constructor <;> omega

/-- A time is written as the fields from which it is read with its fraction of a second cut down, unless
its year is less than 1. -/
theorem ofZoned_eq_ok :
    ofZoned z = .ok t ↔ 1 ≤ z.clock.year ∧ t.Fits ∧ t.toZoned = .ok z.toHundredth := by
  rw [toZoned_eq_ok, ofZoned]
  split
  · next hyears =>
    refine ⟨fun h => (nomatch h), fun ⟨hpos, hfits, hclock, _⟩ => ?_⟩
    have hyear : z.clock.year = t.year.toNat := congrArg CivilTime.year hclock
    have hlt := hfits.year_lt
    omega
  · next hyears =>
    rw [except_bind_eq_ok_iff]
    simp only [quartersOfSeconds_eq_ok]
    have hbytes := z.clock_valid.isBytes
    constructor
    · rintro ⟨zone, hzone, hfields⟩
      have hfields := Except.ok.inj hfields
      have hword : (UInt16.ofNat z.clock.year.toNat).toNat = z.clock.year.toNat :=
        UInt16.toNat_ofNat_of_lt' (by rw [UInt16.size]; omega)
      have hyear : ((UInt16.ofNat z.clock.year.toNat).toNat : Int) = z.clock.year := by
        rw [hword]
        omega
      have hfraction : (UInt8.ofNat (min (z.clock.nanosecond / 1000000) 999 / 10)).toNat * 10000000 =
          if z.clock.nanosecond < 1000000000 then z.clock.nanosecond / 10000000 * 10000000
          else 990000000 := by
        rw [UInt8.toNat_ofNat_of_lt' (by rw [UInt8.size]; omega)]
        split <;> omega
      have hclock : z.toHundredth.clock = t.clock := by
        rw [← hfields]
        simp only [ZonedTime.toHundredth, ZonedTime.withNanosecond, clock, hyear, hfraction,
          hbytes.month_eq, hbytes.day_eq, hbytes.hour_eq, hbytes.minute_eq, hbytes.second_eq]
      refine ⟨by omega, fits_of_clock hclock ?_ ?_, hclock, by rw [← hfields]; exact hzone⟩
      · show z.clock.year ≤ 9999
        omega
      · dsimp only [ZonedTime.toHundredth, ZonedTime.withNanosecond]
        split <;> omega
    · rintro ⟨hpos, hfits, hclock, hzone⟩
      refine ⟨t.zone, hzone, congrArg Except.ok ?_⟩
      simp only [ZonedTime.toHundredth, ZonedTime.withNanosecond, clock,
        CivilTime.mk.injEq] at hclock
      obtain ⟨hyear, hmonth, hday, hhour, hminute, hsecond, hnanosecond⟩ := hclock
      have hyear' : z.clock.year.toNat = t.year.toNat := by omega
      have hhundredths : min (z.clock.nanosecond / 1000000) 999 / 10 = t.hundredths.toNat := by
        split at hnanosecond <;> omega
      simp [hyear', hmonth, hday, hhour, hminute, hsecond, hhundredths]

/-- A time has a long form exactly if its year is from 1 to 9999 and its zone can be recorded. -/
theorem exists_ofZoned_eq_ok : (∃ t, ofZoned z = .ok t) ↔
    1 ≤ z.clock.year ∧ z.clock.year ≤ 9999 ∧ IsRecordableDistance z.offset := by
  rw [ofZoned]
  split
  · next hyears =>
    refine ⟨fun ⟨_, h⟩ => (nomatch h), fun h => ?_⟩
    omega
  · next hyears =>
    rw [and_iff_right (by omega), and_iff_right (by omega)]
    exact exists_quarters_bind_eq_ok _

end LongTime

/-- A time that is given is read from the bytes of its fields, of which there is one spelling. -/
theorem decodeLongTime_eq_ok_some {z : ZonedTime} {f : Field 17} :
    decodeLongTime f = .ok (some z) ↔
      ∃ t : LongTime, t.Fits ∧ f = t.toField ∧ t.toZoned = .ok z := by
  rw [decodeLongTime, except_bind_eq_ok_iff]
  constructor
  · rintro ⟨_ | t, hfield, hread⟩
    · cases hread
    · obtain ⟨_, hz, hdone⟩ := except_bind_eq_ok hread
      cases hdone
      obtain ⟨-, hfits, hbytes⟩ := LongTime.ofField_eq_ok_some.mp hfield
      exact ⟨t, hfits, hbytes, hz⟩
  · rintro ⟨t, hfits, rfl, hz⟩
    have hmonth : 0 < t.month.toNat := by
      have hpos := z.clock_valid.month_pos
      rwa [(LongTime.toZoned_eq_ok.mp hz).1] at hpos
    have hgiven := LongTime.isUnset_toField hfits hmonth
    refine ⟨some t, LongTime.ofField_eq_ok_some.mpr ⟨hgiven, hfits, rfl⟩, ?_⟩
    exact except_bind_eq_ok_iff.mpr ⟨z, hz, rfl⟩

/-- **A time of the years from 1 on is written as the bytes from which it is read** with its fraction of a
second cut down. -/
theorem encodeLongTime_eq_ok {z : ZonedTime} {f : Field 17} :
    encodeLongTime (some z) = .ok f ↔
      1 ≤ z.clock.year ∧ decodeLongTime f = .ok (some z.toHundredth) := by
  rw [encodeLongTime, map_eq_ok, decodeLongTime_eq_ok_some]
  constructor
  · rintro ⟨t, ht, rfl⟩
    obtain ⟨hyear, hfits, hz⟩ := LongTime.ofZoned_eq_ok.mp ht
    exact ⟨hyear, t, hfits, rfl, hz⟩
  · rintro ⟨hyear, t, hfits, rfl, hz⟩
    exact ⟨t, LongTime.ofZoned_eq_ok.mpr ⟨hyear, hfits, hz⟩, rfl⟩

end Ecma119
