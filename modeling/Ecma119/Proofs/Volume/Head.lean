import Ecma119.Proofs.Decoder
import Ecma119.Volume.Layout

/-!
# What a descriptor starts with

A head is read where its bytes are, and a descriptor is read only behind a head of its own type and
version.
-/

namespace Ecma119

/-- Each type has one code, and no code stands for two types. -/
theorem DescriptorType.ofCode?_eq_some {code : UInt8} {type : DescriptorType} :
    ofCode? code = some type ↔ code = type.code := by
  constructor
  · intro h
    unfold ofCode? at h
    repeat' split at h
    all_goals cases h <;> assumption
  · rintro rfl
    exact ofCode?_code type

namespace DescriptorHeader

/-- A head is read back from its own bytes, whatever follows them in the sector. -/
theorem decoder_append (header : DescriptorHeader) (tail : Bytes) :
    decoder (header.encode ++ tail) = .ok (header, tail) := by
  have hidentifier : identifier.length = 5 := rfl
  simp only [encode, List.append_assoc, List.cons_append, List.nil_append]
  rw [decoder, Decoder.bind_eq (Decoder.byte_cons ..),
    Decoder.bind_eq (Decoder.bytes_append hidentifier _), Decoder.bind_eq (Decoder.byte_cons ..)]
  rfl

/-- A head is read exactly where its bytes are, whatever stands behind them. -/
theorem parse_eq_ok {header : DescriptorHeader} {data : Bytes} :
    parse data = .ok header ↔ header.encode <+: data := by
  rw [parse, Decoder.decode_eq_ok]
  constructor
  · rintro ⟨rest, hrun⟩
    obtain ⟨typeCode, behind, hcode, hrun⟩ := Decoder.bind_eq_ok hrun
    obtain ⟨recorded, behind', hrecorded, hrun⟩ := Decoder.bind_eq_ok hrun
    obtain ⟨version, behind'', hversion, hrun⟩ := Decoder.bind_eq_ok hrun
    obtain ⟨⟨⟩, _, hrequire, hdone⟩ := Decoder.bind_eq_ok hrun
    cases hdone
    -- what has been read, put together again
    obtain ⟨hlength, rfl, rfl⟩ := Decoder.bytes_eq_ok.mp hrecorded
    have hidentifier : behind.take 5 = identifier := by
      simpa using (Decoder.require_eq_ok.mp hrequire).1
    refine ⟨behind'', ?_⟩
    rw [Decoder.byte_eq_ok.mp hcode, ← List.take_append_drop 5 behind, hidentifier,
      Decoder.byte_eq_ok.mp hversion]
    rfl
  · rintro ⟨tail, rfl⟩
    exact ⟨tail, decoder_append header tail⟩

end DescriptorHeader

theorem length_terminatorSector : terminatorSector.length = sectorSize := by
  rw [terminatorSector, List.length_append, Bytes.length_zeros]
  rfl

namespace VolumeDescriptor

/-- A descriptor takes a sector, whatever its type and however long its texts are. -/
theorem length_layout (d : VolumeDescriptor) {root : Bytes} (h : root.length = rootRecordLength) :
    (d.layout root).length = sectorSize := by
  unfold layout DescriptorHeader.encode dualBytes32 dualBytes16 ByteOrder.bytes32 ByteOrder.bytes16
  simp only [List.length_append, ByteOrder.length_bytes, Vector.length_toList, List.length_singleton,
    Bytes.length_zeros, Bytes.length_fit, h]
  decide

/-- A descriptor is read behind a head of its type, which the sector starts with. -/
theorem head_of_parse {policy : EndianPolicy} {sector : Bytes} {d : VolumeDescriptor}
    (h : parse policy sector = .ok d) :
    ∃ version, (DescriptorHeader.mk d.type.code version).encode <+: sector := by
  rw [parse] at h
  split at h
  · cases h
  obtain ⟨rest, hrun⟩ := Decoder.decode_eq_ok.mp h
  obtain ⟨header, behind, hheader, hrun⟩ := Decoder.bind_eq_ok hrun
  have htype : header.type? = some d.type := by
    cases htype : header.type? with
    | none =>
      rw [htype] at hrun
      cases hrun
    | some type =>
      rw [htype] at hrun
      cases type with
      | bootRecord | partition | terminator => cases hrun
      | primary | supplementary =>
        obtain ⟨type, _, hpure, hrun⟩ := Decoder.bind_eq_ok hrun
        cases hpure
        rw [← htype]
        refine Decoder.Gives.of_ok (P := fun d => header.type? = some d.type) hrun ?_
        -- the fields behind the head do not touch the type
        repeat refine .bind fun _ => ?_
        exact .pure htype
  have hparse : DescriptorHeader.parse sector = .ok header :=
    Decoder.decode_eq_ok.mpr ⟨behind, hheader⟩
  refine ⟨header.version, ?_⟩
  rw [← DescriptorType.ofCode?_eq_some.mp htype]
  exact DescriptorHeader.parse_eq_ok.mp hparse

end VolumeDescriptor

end Ecma119
