import Ecma119.Proofs.Time.Recorded

/-!
# Reading and writing times

What has been read is written again as it was, in both forms, but for times of the year 0 in a volume
descriptor: these can be read, and are not written (`decoded_encodes`). What is written is read as the
time that it was, up to the fraction of a second that the form has no room for (`encoded_decodes`). No
time that is given is mistaken for one that is not.
-/

namespace Ecma119

/-! ## Writing what has been read -/

/-- A time of a directory record has no fraction of a second, and so is its own second. -/
theorem toSecond_of_decode {f : Field 7} {z : ZonedTime} (h : decodeShortTime f = .ok (some z)) :
    z.toSecond = z := by
  have hclock := (ShortTime.toZoned_eq_ok_some.mp h).1
  apply ZonedTime.withNanosecond_eq_self
  rw [hclock]
  rfl

/-- A time of a volume descriptor is in whole hundredths of a second, and no earlier than the year 0. -/
theorem toHundredth_of_decode {f : Field 17} {z : ZonedTime}
    (h : decodeLongTime f = .ok (some z)) : 0 ≤ z.clock.year ∧ z.toHundredth = z := by
  obtain ⟨t, hfits, -, hz⟩ := decodeLongTime_eq_ok_some.mp h
  have hclock := (LongTime.toZoned_eq_ok.mp hz).1
  refine ⟨?_, ZonedTime.withNanosecond_eq_self _ ?_⟩
  · rw [hclock]
    exact Int.natCast_nonneg _
  · have hlt := hfits.hundredths_lt
    have hfraction : t.clock.nanosecond = t.hundredths.toNat * 10000000 := rfl
    rw [hclock, hfraction, if_pos (by omega), Nat.mul_div_cancel _ (by decide)]

/-- **What has been read is written again as it was.** The one exception are times of volume descriptors
that have the year 0, which are refused. -/
theorem decoded_encodes (f : Field 7) (f' : Field 17) (z : ZonedTime) :
    (decodeShortTime f = .ok (some z) → encodeShortTime z = .ok f) ∧
      (decodeLongTime f' = .ok (some z) →
        encodeLongTime (some z) =
          if z.clock.year = 0 then .error .invalidTimestamp else .ok f') := by
  refine ⟨fun h => ?_, fun h => ?_⟩
  · rw [encodeShortTime_eq_ok, toSecond_of_decode h]
    exact h
  · obtain ⟨hyear, hhundredth⟩ := toHundredth_of_decode h
    split
    · next hzero =>
      rw [encodeLongTime, LongTime.ofZoned, if_pos (by omega)]
      rfl
    · next hzero =>
      rw [encodeLongTime_eq_ok, hhundredth]
      exact ⟨by omega, h⟩

/-- The last second of a leap day, twelve hours behind universal time. -/
def endOfLeapDay : ZonedTime where
  clock := ⟨2024, 2, 29, 23, 59, 59, 0⟩
  offset := -43200
  clock_valid := by decide
  offset_bound := by decide

/-- It is written in both forms as it was read, with the offset -48 in the last byte. -/
theorem decoded_encodes_endOfLeapDay :
    encodeShortTime endOfLeapDay = .ok #v[124, 2, 29, 23, 59, 59, 208] ∧
      encodeLongTime (some endOfLeapDay) =
        .ok (.ofBytes 17 (.ofAscii "2024022923595900") 208) := by
  obtain ⟨hshort, hlong⟩ := decoded_encodes #v[124, 2, 29, 23, 59, 59, 208]
    (.ofBytes 17 (.ofAscii "2024022923595900") 208) endOfLeapDay
  refine ⟨hshort (by decide), ?_⟩
  rw [hlong (by decide +kernel), if_neg (by decide)]

/-- The first day of the year 0 is read, and cannot be written, as years are written from 1 on. -/
theorem decoded_not_encodes_yearZero :
    let f : Field 17 := .ofBytes 17 (.ofAscii "0000010100000000") 0
    ∃ z, decodeLongTime f = .ok (some z) ∧ encodeLongTime (some z) ≠ .ok f := by
  refine ⟨⟨⟨0, 1, 1, 0, 0, 0, 0⟩, 0, by decide, by decide⟩, by decide +kernel, by decide +kernel⟩

/-! ## Reading what has been written -/

/-- **What is written is read as the time that it was**, without its fraction of a second or with that
cut down to hundredths. A time is written if the form has room for its year and its distance from
universal time. -/
theorem encoded_decodes (z : ZonedTime) :
    ((∃ f, encodeShortTime z = .ok f) ↔
      1900 ≤ z.clock.year ∧ z.clock.year ≤ 2155 ∧ IsRecordableDistance z.offset) ∧
    (∀ f, encodeShortTime z = .ok f → decodeShortTime f = .ok (some z.toSecond)) ∧
    ((∃ f, encodeLongTime (some z) = .ok f) ↔
      1 ≤ z.clock.year ∧ z.clock.year ≤ 9999 ∧ IsRecordableDistance z.offset) ∧
    (∀ f, encodeLongTime (some z) = .ok f → decodeLongTime f = .ok (some z.toHundredth)) := by
  refine ⟨?_, fun f => encodeShortTime_eq_ok.mp, ?_, fun f h => (encodeLongTime_eq_ok.mp h).2⟩
  · rw [← ShortTime.exists_ofZoned_eq_ok]
    exact exists_map_eq_ok
  · rw [← LongTime.exists_ofZoned_eq_ok]
    exact exists_map_eq_ok

/-- A leap second and a half, thirteen hours ahead of universal time. -/
def leapSecond : ZonedTime where
  clock := ⟨2016, 12, 31, 23, 59, 59, 1500000000⟩
  offset := 46800
  clock_valid := by decide
  offset_bound := by decide

/-- It is written in both forms, and is read as the second before and as the last hundredth of that. -/
theorem encoded_decodes_leapSecond :
    ∃ f f', encodeShortTime leapSecond = .ok f ∧
      decodeShortTime f = .ok (some ⟨⟨2016, 12, 31, 23, 59, 59, 0⟩, 46800, by decide, by decide⟩) ∧
      encodeLongTime (some leapSecond) = .ok f' ∧
      decodeLongTime f' =
        .ok (some ⟨⟨2016, 12, 31, 23, 59, 59, 990000000⟩, 46800, by decide, by decide⟩) := by
  obtain ⟨hshort, hshort', hlong, hlong'⟩ := encoded_decodes leapSecond
  have hdistance : IsRecordableDistance leapSecond.offset := ⟨⟨52, rfl⟩, by decide, by decide⟩
  obtain ⟨f, hf⟩ := hshort.mpr ⟨by decide, by decide, hdistance⟩
  obtain ⟨f', hf'⟩ := hlong.mpr ⟨by decide, by decide, hdistance⟩
  exact ⟨f, f', hf, hshort' f hf, hf', hlong' f' hf'⟩

end Ecma119
