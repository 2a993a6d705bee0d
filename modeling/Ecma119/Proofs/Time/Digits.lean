import Ecma119.Proofs.Decoder
import Ecma119.Proofs.Run
import Ecma119.Time.Long
import Mathlib.Data.List.Induction

/-!
# Numbers of decimal digits

A number of so many digits is read from exactly the digits that it is written with: there is no other
way to write it (`decimalValue_eq_ok`). So the fields of a time in a volume descriptor are read from the
bytes that they are written as, and from no others (`LongTime.ofField_eq_ok_some`).
-/

namespace Ecma119

/-! ## Digits -/

/-- A digit is the byte of its value, so that a digit is known by its value and the other way round. -/
theorem digit_iff {byte : UInt8} {digit : Nat} :
    (0x30 ≤ byte ∧ byte ≤ 0x39) ∧ byte.toNat - 0x30 = digit ↔
      digit < 10 ∧ byte = UInt8.ofNat (0x30 + digit) := by
  rw [UInt8.le_iff_toNat_le, UInt8.le_iff_toNat_le]
  have hzero : (0x30 : UInt8).toNat = 48 := rfl
  have hnine : (0x39 : UInt8).toNat = 57 := rfl
  constructor
  · rintro ⟨⟨hlow, hhigh⟩, rfl⟩
    refine ⟨by omega, ?_⟩
    rw [Nat.add_sub_cancel' (by omega), UInt8.ofNat_toNat]
  · rintro ⟨hlt, rfl⟩
    rw [UInt8.toNat_ofNat', Nat.mod_eq_of_lt (by omega)]
    omega

/-- The last digit is what is left of a number, and the others are its tenth part. -/
theorem decimalValue_concat {value n : Nat} {digits : Bytes} {byte : UInt8} :
    decimalValue value (digits ++ [byte]) = .ok n ↔
      decimalValue value digits = .ok (n / 10) ∧ byte = UInt8.ofNat (0x30 + n % 10) := by
  induction digits generalizing value with
  | nil =>
    have hlast : byte = UInt8.ofNat (0x30 + n % 10) ↔
        (0x30 ≤ byte ∧ byte ≤ 0x39) ∧ byte.toNat - 0x30 = n % 10 := by
      rw [digit_iff]
      exact (and_iff_right (Nat.mod_lt n (by decide))).symm
    rw [List.nil_append, decimalValue, decimalValue, decimalValue, hlast, Except.ok.injEq]
    split
    · next hdigit =>
      have hlt := (digit_iff.mp ⟨hdigit, rfl⟩).1
      rw [Except.ok.injEq, and_iff_right hdigit]
      omega
    · next hdigit => simp [hdigit]
  | cons first rest ih =>
    rw [List.cons_append, decimalValue, decimalValue]
    split
    · exact ih
    · simp

/-- **A number has one spelling** with so many digits, and every number that has not more of them has
one. -/
theorem decimalValue_eq_ok {digits : Bytes} {n : Nat} :
    decimalValue 0 digits = .ok n ↔
      n < 10 ^ digits.length ∧ digits = decimalDigits digits.length n := by
  induction digits using List.reverseRecOn generalizing n with
  | nil =>
    rw [decimalValue, Except.ok.injEq]
    simp [decimalDigits, eq_comm]
  | append_singleton digits byte ih =>
    have hlast (front : Bytes) (b : UInt8) :
        digits ++ [byte] = front ++ [b] ↔ digits = front ∧ byte = b := by simp
    rw [decimalValue_concat, ih, List.length_append, List.length_singleton, decimalDigits, hlast,
      Nat.pow_succ, ← Nat.div_lt_iff_lt_mul (by decide), and_assoc]

/-- Digits that are all zeros, or all NULs, write nothing but zero, if they write a number at all. -/
theorem eq_zero_of_all_zero {width n : Nat} (hlt : n < 10 ^ width)
    (h : (decimalDigits width n).all (fun b => b == 0x30 || b == 0) = true) : n = 0 := by
  induction width generalizing n with
  | zero => exact Nat.lt_one_iff.mp hlt
  | succ width ih =>
    rw [decimalDigits, List.all_append, Bool.and_eq_true] at h
    rw [Nat.pow_succ, ← Nat.div_lt_iff_lt_mul (by decide)] at hlt
    have hfront := ih hlt h.1
    have hdigit : ∀ digit < 10, ([UInt8.ofNat (0x30 + digit)].all fun b => b == 0x30 || b == 0) = true →
        digit = 0 := by decide
    have hlast := hdigit (n % 10) (Nat.mod_lt n (by decide)) h.2
    omega

/-! ## The fields of a time -/

namespace LongTime

/-- A number is read from its digits, with zeros in front if it has fewer than the field. -/
theorem number_eq_ok {width n : Nat} {input rest : Bytes} :
    number width input = .ok (n, rest) ↔
      n < 10 ^ width ∧ input = decimalDigits width n ++ rest := by
  rw [number, Decoder.bind_eq_ok_iff]
  constructor
  · rintro ⟨digits, between, hbytes, hnumber⟩
    obtain ⟨rfl, rfl⟩ := Decoder.bytes_eq_ok_iff_append.mp hbytes
    obtain ⟨hvalue, rfl⟩ := Decoder.liftM_eq_ok.mp hnumber
    obtain ⟨hlt, hdigits⟩ := decimalValue_eq_ok.mp hvalue
    exact ⟨hlt, by rw [← hdigits]⟩
  · rintro ⟨hlt, rfl⟩
    have hlength := length_decimalDigits width n
    refine ⟨_, rest, Decoder.bytes_eq_ok_iff_append.mpr ⟨hlength, rfl⟩, ?_⟩
    exact Decoder.liftM_eq_ok.mpr ⟨decimalValue_eq_ok.mpr (by rw [hlength]; exact ⟨hlt, rfl⟩), rfl⟩

/-- Every number of the fields has as many digits as there is room for. -/
structure Fits (t : LongTime) : Prop where
  year_lt : t.year.toNat < 10 ^ 4
  month_lt : t.month.toNat < 10 ^ 2
  day_lt : t.day.toNat < 10 ^ 2
  hour_lt : t.hour.toNat < 10 ^ 2
  minute_lt : t.minute.toNat < 10 ^ 2
  second_lt : t.second.toNat < 10 ^ 2
  hundredths_lt : t.hundredths.toNat < 10 ^ 2

/-- The fields are read from the bytes that they are written as, and from no others. -/
theorem decoder_eq_ok {t : LongTime} {input rest : Bytes} :
    decoder input = .ok (t, rest) ↔ t.Fits ∧ input = t.toField.toList ++ rest := by
  rw [decoder]
  simp only [Decoder.bind_eq_ok_iff, number_eq_ok, Decoder.int8, Decoder.byte_eq_ok, Decoder.pure_eq_ok]
  constructor
  · rintro ⟨year, _, ⟨hyear, rfl⟩, month, _, ⟨hmonth, rfl⟩, day, _, ⟨hday, rfl⟩, hour, _,
      ⟨hhour, rfl⟩, minute, _, ⟨hminute, rfl⟩, second, _, ⟨hsecond, rfl⟩, hundredths, _,
      ⟨hhundredths, rfl⟩, zone, _, ⟨b, _, rfl, rfl, rfl⟩, rfl, rfl⟩
    have hword : (UInt16.ofNat year).toNat = year :=
      UInt16.toNat_ofNat'.trans (Nat.mod_eq_of_lt (by omega))
    have hbyte (n : Nat) (h : n < 10 ^ 2) : (UInt8.ofNat n).toNat = n :=
      UInt8.toNat_ofNat'.trans (Nat.mod_eq_of_lt (by omega))
    refine ⟨⟨?_, ?_, ?_, ?_, ?_, ?_, ?_⟩, ?_⟩
    · rwa [hword]
    · rwa [hbyte month hmonth]
    · rwa [hbyte day hday]
    · rwa [hbyte hour hhour]
    · rwa [hbyte minute hminute]
    · rwa [hbyte second hsecond]
    · rwa [hbyte hundredths hhundredths]
    · simp [toField, hword, hbyte month hmonth, hbyte day hday, hbyte hour hhour,
        hbyte minute hminute, hbyte second hsecond, hbyte hundredths hhundredths]
  · rintro ⟨h, rfl⟩
    refine ⟨_, _, ⟨h.year_lt, ?_⟩, _, _, ⟨h.month_lt, rfl⟩, _, _, ⟨h.day_lt, rfl⟩, _, _,
      ⟨h.hour_lt, rfl⟩, _, _, ⟨h.minute_lt, rfl⟩, _, _, ⟨h.second_lt, rfl⟩, _, _,
      ⟨h.hundredths_lt, rfl⟩, _, _, ⟨t.zone.toUInt8, rest, rfl, rfl, rfl⟩, ?_, rfl⟩
    · simp [toField]
    · simp

/-- The digits of a time with a month are not all zeros, so that it is not taken for none. -/
theorem isUnset_toField {t : LongTime} (h : t.Fits) (hmonth : 0 < t.month.toNat) :
    isUnset t.toField = false := by
  rw [Bool.eq_false_iff]
  intro hunset
  have hdigits : (decimalDigits 2 t.month.toNat).all (fun b => b == 0x30 || b == 0) = true := by
    rw [isUnset, List.all_eq_true] at hunset
    refine List.all_eq_true.mpr fun b hb => hunset b ?_
    rw [show t.toField.toList = _ ++ [t.zone.toUInt8] from rfl, List.take_left' (by simp)]
    simp [hb]
  rw [eq_zero_of_all_zero h.month_lt hdigits] at hmonth
  exact Nat.lt_irrefl 0 hmonth

/-- A time that is given is read from the bytes that it is written as, and from no others. -/
theorem ofField_eq_ok_some {f : Field 17} {t : LongTime} :
    ofField f = .ok (some t) ↔ isUnset f = false ∧ t.Fits ∧ f = t.toField := by
  rw [ofField]
  cases isUnset f with
  | true => simp
  | false =>
    rw [if_neg Bool.false_ne_true, map_eq_ok, and_iff_right rfl]
    simp only [Option.some.injEq, exists_eq_right, Decoder.decode_eq_ok, decoder_eq_ok,
      exists_and_left, ← Vector.toList_inj]
    refine and_congr_right fun _ => ⟨?_, fun h => ⟨[], by rw [h, List.append_nil]⟩⟩
    rintro ⟨rest, h⟩
    obtain rfl : rest = [] := by
      have hlength := congrArg List.length h
      simpa using hlength
    rw [h, List.append_nil]

end LongTime

end Ecma119
