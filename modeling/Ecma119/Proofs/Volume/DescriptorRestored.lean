import Ecma119.Proofs.Directory.RecordRestored
import Ecma119.Proofs.Volume.DescriptorRoundTrip
import Ecma119.Proofs.Volume.Halves

/-!
# Volume descriptors written again

A descriptor that has been read can be written, and comes out as the sector it was read from, but for the
reserved bytes, which become zeros, and for the numbers whose halves differ, which lose their last halves.
`layout_of_decoder` goes through the fields of a sector that is read strictly. Lenient reading is strict
reading of the sector in which all halves have been made to agree.
-/

namespace Ecma119

/-- The head of a descriptor is written as it was read, since its identifier is checked. -/
theorem DescriptorHeader.inverts_decoder : Decoder.Inverts 7 encode decoder where
  toTakes := takes_decoder
  write_eq h := List.prefix_iff_eq_take.mp (parse_eq_ok.mp (Decoder.decode_eq_ok.mpr ⟨_, h⟩))

namespace VolumeDescriptor

variable {d : VolumeDescriptor} {sector rest : Bytes} {offset len : Nat}

/-! ## Reserved bytes -/

/-- The offset and the length of each part of a descriptor that the standard reserves. -/
def reserved : List (Nat × Nat) := [(72, 8), (882, 1), (1395, reservedLength)]

/-- The sector of a descriptor with zeros in its reserved bytes. -/
def cleared (sector : Bytes) : Bytes := Bytes.zeroed reserved (sector.take sectorSize)

theorem reserved_end_le (h : sectorSize ≤ sector.length) :
    ∀ area ∈ reserved, area.1 + area.2 ≤ (sector.take sectorSize).length := by
  rw [List.length_take_of_le h]
  decide

theorem length_cleared (h : sectorSize ≤ sector.length) : (cleared sector).length = sectorSize := by
  rw [cleared, Bytes.length_zeroed (reserved_end_le h), List.length_take_of_le h]

/-- All other bytes are those of the sector: clearing touches the reserved areas only. -/
theorem slice_cleared (h : sectorSize ≤ sector.length)
    (hkept : offset + len ≤ sectorSize ∧ ∀ area ∈ reserved, Bytes.Apart area (offset, len)) :
    (cleared sector).slice offset len = sector.slice offset len := by
  rw [cleared, Bytes.slice_zeroed_of_apart (reserved_end_le h) hkept.2, Bytes.slice_take hkept.1]

theorem slice_cleared_reserved (h : sectorSize ≤ sector.length) (hmem : (offset, len) ∈ reserved) :
    (cleared sector).slice offset len = Bytes.zeros len :=
  Bytes.slice_zeroed (reserved_end_le h) (by decide) hmem

/-! ## Strict reading -/

/-- Behind the head, decoding goes on for the two types that have this layout and fails for all others.
-/
theorem type_of_bind {α : Type} {type? : Option DescriptorType} {cause : FormatError}
    {next : DescriptorType → Decoder α} {input rest : Bytes} {a : α}
    (h : (match type? with
      | some .primary => pure .primary >>= next
      | some .supplementary => pure .supplementary >>= next
      | _ => throw cause >>= next : Decoder α) input = .ok (a, rest)) :
    ∃ type, type? = some type ∧ (type = .primary ∨ type = .supplementary) ∧
      next type input = .ok (a, rest) := by
  cases type? with
  | none => cases h
  | some type =>
    cases type with
    | primary => exact ⟨_, rfl, .inl rfl, h⟩
    | supplementary => exact ⟨_, rfl, .inr rfl, h⟩
    | bootRecord | partition | terminator => cases h

/-- A type and a version that go together make a descriptor that can be laid out. -/
theorem hasLayout_of_checkVersion (htype : d.type = .primary ∨ d.type = .supplementary)
    {header : DescriptorHeader} (hversion : d.version = header.version)
    (hcheck : header.checkVersion d.type = .ok ()) : d.HasLayout := by
  rw [DescriptorHeader.checkVersion, ← hversion] at hcheck
  split at hcheck
  case isFalse => cases hcheck
  next h =>
    rcases htype with htype | htype
    · rw [htype] at h
      exact .inl ⟨htype, of_decide_eq_true h⟩
    · rw [htype] at h
      exact .inr ⟨htype, by simpa [DescriptorType.hasVersion] using h⟩

/-- The last of the reserved bytes end the sector, and they are written as zeros. -/
theorem take_cleared_append (h : sectorSize ≤ sector.length) :
    (cleared sector).take 1395 ++ Bytes.zeros reservedLength = cleared sector := by
  rw [← slice_cleared_reserved h (by decide : (1395, reservedLength) ∈ reserved)]
  exact (List.take_add ..).symm.trans (List.take_of_length_le (Nat.le_of_eq (length_cleared h)))

/-- All the fields of a sector that is read strictly are written as they were, each in its place. -/
theorem layout_of_decoder (hlength : sectorSize ≤ sector.length)
    (h : decoder .strict sector = .ok (d, rest)) :
    d.HasLayout ∧ d.applicationUse.length = applicationUseLength ∧
      ∃ root, root.length = rootRecordLength ∧ DirectoryRecord.parse .strict root = .ok d.root ∧
        d.layout root = cleared sector := by
  have hkept {offset len : Nat} (hkept : offset + len ≤ sectorSize ∧
      ∀ area ∈ reserved, Bytes.Apart area (offset, len)) := slice_cleared hlength hkept
  have hzeros {offset len : Nat} (hmem : (offset, len) ∈ reserved) :=
    slice_cleared_reserved hlength hmem
  have hrun : decoder .strict (sector.drop 0) = .ok (d, rest) := h
  have hfront : [] = (cleared sector).take 0 := rfl
  obtain ⟨header, hfront, hrun⟩ :=
    DescriptorHeader.inverts_decoder.of_bind hfront (hkept (by decide)) hrun
  obtain ⟨type, htype, hlayout, hrun⟩ := type_of_bind hrun
  obtain ⟨⟨⟩, behind, hversion, hrun⟩ := Decoder.bind_eq_ok hrun
  obtain ⟨hcheck, rfl⟩ := Decoder.liftM_eq_ok.mp hversion
  obtain ⟨flags, hfront, hrun⟩ := Decoder.Inverts.byte.of_bind hfront (hkept (by decide)) hrun
  obtain ⟨systemId, hfront, hrun⟩ :=
    (Decoder.Inverts.field 32).of_bind hfront (hkept (by decide)) hrun
  obtain ⟨volumeId, hfront, hrun⟩ :=
    (Decoder.Inverts.field 32).of_bind hfront (hkept (by decide)) hrun
  obtain ⟨hfront, hrun⟩ := Decoder.of_skip_bind hfront (hzeros (by decide)) hrun
  obtain ⟨volumeSpaceSize, hfront, hrun⟩ :=
    Decoder.Inverts.dual32.of_bind hfront (hkept (by decide)) hrun
  obtain ⟨escapeSequences, hfront, hrun⟩ :=
    (Decoder.Inverts.field 32).of_bind hfront (hkept (by decide)) hrun
  obtain ⟨volumeSetSize, hfront, hrun⟩ :=
    Decoder.Inverts.dual16.of_bind hfront (hkept (by decide)) hrun
  obtain ⟨volumeSequenceNumber, hfront, hrun⟩ :=
    Decoder.Inverts.dual16.of_bind hfront (hkept (by decide)) hrun
  obtain ⟨logicalBlockSize, hfront, hrun⟩ :=
    Decoder.Inverts.dual16.of_bind hfront (hkept (by decide)) hrun
  obtain ⟨pathTableSize, hfront, hrun⟩ :=
    Decoder.Inverts.dual32.of_bind hfront (hkept (by decide)) hrun
  obtain ⟨typeLPathTable, hfront, hrun⟩ :=
    (Decoder.Inverts.u32 .little).of_bind hfront (hkept (by decide)) hrun
  obtain ⟨optionalTypeLPathTable, hfront, hrun⟩ :=
    (Decoder.Inverts.u32 .little).of_bind hfront (hkept (by decide)) hrun
  obtain ⟨typeMPathTable, hfront, hrun⟩ :=
    (Decoder.Inverts.u32 .big).of_bind hfront (hkept (by decide)) hrun
  obtain ⟨optionalTypeMPathTable, hfront, hrun⟩ :=
    (Decoder.Inverts.u32 .big).of_bind hfront (hkept (by decide)) hrun
  obtain ⟨root, hroot, hfront, hrun⟩ := Decoder.of_bytes_bind hfront (hkept (by decide)) hrun
  obtain ⟨record, behind, hrecord, hrun⟩ := Decoder.bind_eq_ok hrun
  obtain ⟨hparse, rfl⟩ := Decoder.liftM_eq_ok.mp hrecord
  obtain ⟨volumeSetId, hfront, hrun⟩ :=
    (Decoder.Inverts.field 128).of_bind hfront (hkept (by decide)) hrun
  obtain ⟨publisherId, hfront, hrun⟩ :=
    (Decoder.Inverts.field 128).of_bind hfront (hkept (by decide)) hrun
  obtain ⟨preparerId, hfront, hrun⟩ :=
    (Decoder.Inverts.field 128).of_bind hfront (hkept (by decide)) hrun
  obtain ⟨applicationId, hfront, hrun⟩ :=
    (Decoder.Inverts.field 128).of_bind hfront (hkept (by decide)) hrun
  obtain ⟨copyrightFileId, hfront, hrun⟩ :=
    (Decoder.Inverts.field 37).of_bind hfront (hkept (by decide)) hrun
  obtain ⟨abstractFileId, hfront, hrun⟩ :=
    (Decoder.Inverts.field 37).of_bind hfront (hkept (by decide)) hrun
  obtain ⟨bibliographicFileId, hfront, hrun⟩ :=
    (Decoder.Inverts.field 37).of_bind hfront (hkept (by decide)) hrun
  obtain ⟨creationTime, hfront, hrun⟩ :=
    (Decoder.Inverts.field 17).of_bind hfront (hkept (by decide)) hrun
  obtain ⟨modificationTime, hfront, hrun⟩ :=
    (Decoder.Inverts.field 17).of_bind hfront (hkept (by decide)) hrun
  obtain ⟨expirationTime, hfront, hrun⟩ :=
    (Decoder.Inverts.field 17).of_bind hfront (hkept (by decide)) hrun
  obtain ⟨effectiveTime, hfront, hrun⟩ :=
    (Decoder.Inverts.field 17).of_bind hfront (hkept (by decide)) hrun
  obtain ⟨fileStructureVersion, hfront, hrun⟩ :=
    Decoder.Inverts.byte.of_bind hfront (hkept (by decide)) hrun
  obtain ⟨hfront, hrun⟩ := Decoder.of_skip_bind hfront (hzeros (by decide)) hrun
  obtain ⟨applicationUse, huse, hfront, hrun⟩ :=
    Decoder.of_bytes_bind hfront (hkept (by decide)) hrun
  cases hrun
  have hheader : DescriptorHeader.mk type.code header.version = header := by
    rw [← DescriptorType.ofCode?_eq_some.mp htype]
  refine ⟨hasLayout_of_checkVersion hlayout rfl hcheck, huse, root, hroot, hparse, ?_⟩
  have hfit := Bytes.fit_of_length 0 huse
  unfold layout
  dsimp only
  rw [hheader, hfit, ← take_cleared_append hlength]
  refine congrArg (· ++ Bytes.zeros reservedLength) ?_
  rw [List.nil_append] at hfront
  exact hfront

/-- A descriptor whose root record tells its length reads as it is if no application's bytes are missing. -/
theorem recorded_eq_self (hroot : d.root.length = 34)
    (huse : d.applicationUse.length = applicationUseLength) : d.recorded = d := by
  rw [recorded, Bytes.fit_of_length 0 huse, ← hroot]

/-- What is read strictly is written as it was, with zeros in the reserved bytes, which are not read. -/
theorem encode_of_parse_strict (h : parse .strict sector = .ok d) :
    d.encode = .ok (cleared sector) ∧ d.HasLayout ∧ d.recorded = d := by
  rw [parse] at h
  split at h
  · cases h
  next hshort =>
    obtain ⟨rest, hrun⟩ := Decoder.decode_eq_ok.mp h
    obtain ⟨hd, huse, root, hlength, hparse, hlayout⟩ :=
      layout_of_decoder (Nat.le_of_not_lt hshort) hrun
    obtain ⟨hencode, hrootLength⟩ := DirectoryRecord.encode_of_length_eq_minLength hparse hlength
    exact ⟨encode_eq_ok.mpr ⟨root, hencode, hlength, Nat.le_of_eq huse, hlayout.symm⟩, hd,
      recorded_eq_self hrootLength huse⟩

/-! ## Lenient reading -/

/-- What is read leniently is read strictly where the halves have been made to agree. -/
theorem parse_mirrored (h : parse .lenient sector = .ok d) :
    parse .strict (mirrored dualFields sector) = .ok d := by
  have hlength : sectorSize ≤ sector.length := by
    rw [parse] at h
    split at h
    · cases h
    · next hshort => exact Nat.le_of_not_lt hshort
  have hends : ∀ f ∈ dualFields, f.EndsBy sectorSize := by decide
  exact (reconciles_parse.strict_mirrored (fun f hf => Nat.le_trans (hends f hf) hlength)
    (by decide)).mpr h

/-- The sector as a descriptor that is read from it under the policy is written. -/
def rewritten (policy : EndianPolicy) (sector : Bytes) : Bytes :=
  match policy with
  | .strict => cleared sector
  | .lenient => cleared (mirrored dualFields sector)

/-- **A descriptor that has been read is written again.** Read strictly, it comes out as the sector it
was read from with zeros in the reserved bytes; read leniently, the numbers that are recorded both ways
also have the values of their first halves in their last halves. What comes out is read as the same
descriptor under either policy. -/
theorem rewritten_of_parse {policy : EndianPolicy} (h : parse policy sector = .ok d) :
    d.encode = .ok (rewritten policy sector) ∧
      ∀ policy', parse policy' (rewritten policy sector) = .ok d := by
  obtain ⟨hencode, hd, hrecorded⟩ : d.encode = .ok (rewritten policy sector) ∧ d.HasLayout ∧
      d.recorded = d := by
    cases policy with
    | strict => exact encode_of_parse_strict h
    | lenient => exact encode_of_parse_strict (parse_mirrored h)
  refine ⟨hencode, fun policy' => ?_⟩
  rw [parse_encode policy' hencode hd, hrecorded]

/-- A descriptor with other bytes in the last half of its number of blocks is written without them. -/
theorem rewritten_of_parse_overwritten :
    let d := blank .primary (DirectoryRecord.ofExtent [0x00] 18 2048 .directory)
    ∃ bytes, d.encode = .ok bytes ∧ parse .lenient (bytes.put 84 [1, 2, 3, 4]) = .ok d ∧
      rewritten .lenient (bytes.put 84 [1, 2, 3, 4]) = bytes := by
  intro d
  obtain ⟨root, hroot, hlength⟩ := exists_root_iff.mpr (⟨rfl, rfl⟩ :
    d.root.name.length = 1 ∧ d.root.systemUse = [])
  have hencode : d.encode = .ok (d.layout root) :=
    encode_eq_ok.mpr ⟨root, hroot, hlength, Nat.le_of_eq (Bytes.length_zeros _), rfl⟩
  have hsector := length_layout d hlength
  have hinside : 84 + ([1, 2, 3, 4] : Bytes).length ≤ (d.layout root).length := by
    rw [hsector]
    decide
  -- the bytes from 84 to 88 are the last half of the number of blocks
  have halike : AlikeBut dualFields (d.layout root) ((d.layout root).put 84 [1, 2, 3, 4]) := by
    refine ⟨Bytes.length_put hinside, fun index hindex => Bytes.getElem?_put_of_apart hinside ?_⟩
    have hout : ¬ (84 ≤ index ∧ index < 88) := hindex ⟨80, 4⟩ (by decide)
    simp only [List.length_cons, List.length_nil]
    omega
  have hparse : parse .lenient ((d.layout root).put 84 [1, 2, 3, 4]) = .ok d := by
    rw [reconciles_parse.lenient_eq halike, parse_encode .lenient hencode (.inl ⟨rfl, rfl⟩),
      recorded_eq_self rfl (Bytes.length_zeros _)]
  have hwritten := (rewritten_of_parse hparse).1
  rw [hencode] at hwritten
  refine ⟨_, hencode, hparse, ?_⟩
  exact (Except.ok.inj hwritten).symm

end VolumeDescriptor

end Ecma119
