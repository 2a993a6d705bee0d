import Ecma119.Proofs.Bytes
import Ecma119.Proofs.Decoder
import Ecma119.SystemUse

/-!
# Areas with an XA record in front

An XA record is known by two letters in its seventh and eighth byte, and by nothing else. So whether
an area has one is told by its length and these two bytes.
-/

namespace Ecma119

namespace XaAttributes

/-- What has been read as an XA record is long enough for one, and has its letters in place. -/
theorem letters_of_run {area rest : Bytes} {xa : XaAttributes}
    (h : decoder area = .ok (xa, rest)) :
    recordLength ≤ area.length ∧ area.slice 6 2 = signature := by
  obtain ⟨_, _, hgroup, hrest⟩ := Decoder.bind_eq_ok h
  obtain ⟨-, rfl⟩ := Decoder.exists_u16_eq_ok.mp ⟨_, hgroup⟩
  obtain ⟨_, _, huser, hrest⟩ := Decoder.bind_eq_ok hrest
  obtain ⟨-, rfl⟩ := Decoder.exists_u16_eq_ok.mp ⟨_, huser⟩
  obtain ⟨_, _, hattributes, hrest⟩ := Decoder.bind_eq_ok hrest
  obtain ⟨-, rfl⟩ := Decoder.exists_u16_eq_ok.mp ⟨_, hattributes⟩
  obtain ⟨letters, _, hletters, hrest⟩ := Decoder.bind_eq_ok hrest
  obtain ⟨-, rfl, rfl⟩ := Decoder.bytes_eq_ok.mp hletters
  obtain ⟨_, _, hrequire, hrest⟩ := Decoder.bind_eq_ok hrest
  obtain ⟨hequal, rfl⟩ := Decoder.require_eq_ok.mp hrequire
  obtain ⟨_, _, hnumber, hrest⟩ := Decoder.bind_eq_ok hrest
  obtain ⟨-, rfl⟩ := Decoder.exists_byte_eq_ok.mp ⟨_, hnumber⟩
  obtain ⟨_, _, hreserved, -⟩ := Decoder.bind_eq_ok hrest
  have hlength := (Decoder.field_eq_ok.mp hreserved).1
  simp only [List.length_drop, List.drop_drop, beq_iff_eq] at hlength hequal
  exact ⟨by show 14 ≤ area.length; omega, hequal⟩

/-- With the letters in place nothing else is asked of the bytes: any such area has an XA record. -/
theorem exists_run {area : Bytes} (hlength : recordLength ≤ area.length)
    (hletters : area.slice 6 2 = signature) :
    ∃ xa, decoder area = .ok (xa, area.drop recordLength) := by
  change 14 ≤ area.length at hlength
  have hleft (n : Nat) : (area.drop n).length = area.length - n := List.length_drop
  obtain ⟨groupId, hgroup⟩ : ∃ value, Decoder.u16 .big area = .ok (value, area.drop 2) :=
    Decoder.exists_u16_eq_ok.mpr ⟨by omega, rfl⟩
  obtain ⟨userId, huser⟩ : ∃ value, Decoder.u16 .big (area.drop 2) = .ok (value, area.drop 4) :=
    Decoder.exists_u16_eq_ok.mpr ⟨by rw [hleft]; omega, by rw [List.drop_drop]⟩
  obtain ⟨attributes, hattributes⟩ :
      ∃ value, Decoder.u16 .big (area.drop 4) = .ok (value, area.drop 6) :=
    Decoder.exists_u16_eq_ok.mpr ⟨by rw [hleft]; omega, by rw [List.drop_drop]⟩
  have hbytes : Decoder.bytes 2 (area.drop 6) = .ok (signature, area.drop 8) :=
    Decoder.bytes_eq_ok.mpr ⟨by rw [hleft]; omega, hletters.symm, by rw [List.drop_drop]⟩
  have hrequire : Decoder.require (signature == signature) .badSignature (area.drop 8) =
      .ok ((), area.drop 8) := Decoder.require_eq_ok.mpr ⟨beq_self_eq_true _, rfl⟩
  obtain ⟨fileNumber, hnumber⟩ : ∃ b, Decoder.byte (area.drop 8) = .ok (b, area.drop 9) :=
    Decoder.exists_byte_eq_ok.mpr ⟨by rw [hleft]; omega, by rw [List.drop_drop]⟩
  obtain ⟨reserved, hreserved⟩ : ∃ f, Decoder.field 5 (area.drop 9) = .ok (f, area.drop 14) :=
    Decoder.exists_field_eq_ok.mpr ⟨by rw [hleft]; omega, by rw [List.drop_drop]⟩
  refine ⟨⟨groupId, userId, attributes, fileNumber⟩, ?_⟩
  rw [decoder, Decoder.bind_eq hgroup, Decoder.bind_eq huser, Decoder.bind_eq hattributes,
    Decoder.bind_eq hbytes, Decoder.bind_eq hrequire, Decoder.bind_eq hnumber,
    Decoder.bind_eq hreserved]
  rfl

/-- An area has an XA record in front if it is long enough for one and has the letters in their
place. -/
theorem isSome_parse (area : Bytes) :
    (parse area).isSome = true ↔ recordLength ≤ area.length ∧ area.slice 6 2 = signature := by
  have hsome : (parse area).isSome = true ↔ ∃ xa, decoder.decode area = .ok xa := by
    rw [parse]
    cases decoder.decode area with
    | ok xa => simp [Except.toOption]
    | error cause => simp [Except.toOption]
  rw [hsome]
  constructor
  · rintro ⟨xa, h⟩
    obtain ⟨rest, hrun⟩ := Decoder.decode_eq_ok.mp h
    exact letters_of_run hrun
  · rintro ⟨hlength, hletters⟩
    obtain ⟨xa, hrun⟩ := exists_run hlength hletters
    exact ⟨xa, Decoder.decode_eq_ok.mpr ⟨_, hrun⟩⟩

end XaAttributes

end Ecma119
