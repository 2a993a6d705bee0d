import Ecma119.Proofs.Directory.RecordRoundTrip
import Ecma119.Proofs.Run
import Ecma119.Proofs.Volume.Head

/-!
# Volume descriptors read back

A descriptor can be written if the record of its root directory takes the 34 bytes that there are for
it and the application's own bytes are not too many. What comes back is `VolumeDescriptor.recorded`:
the record tells its length, and the application's bytes are filled up with zeros. `decoder_layout`
goes through all the fields, in the order in which they are recorded.
-/

namespace Ecma119.VolumeDescriptor

variable {d : VolumeDescriptor} {bytes root : Bytes}

/-! ## What can be written -/

/-- A record of 34 bytes has an identifier of one byte and nothing else, so that a root record is one. -/
theorem encodedLength_eq_rootRecordLength {r : DirectoryRecord} (hname : r.name ≠ []) :
    r.encodedLength = rootRecordLength ↔ r.name.length = 1 ∧ r.systemUse = [] := by
  have hpos : 0 < r.name.length := List.length_pos_iff.mpr hname
  rw [← List.length_eq_zero_iff]
  simp only [DirectoryRecord.encodedLength, DirectoryRecord.sizeFor, DirectoryRecord.headLength,
    padEven, rootRecordLength]
  omega

/-- A root record can be written in its place if it has such an identifier and nothing else. -/
theorem exists_root_iff {r : DirectoryRecord} :
    (∃ root, r.encode = .ok root ∧ root.length = rootRecordLength) ↔
      r.name.length = 1 ∧ r.systemUse = [] := by
  constructor
  · rintro ⟨root, hencode, hlength⟩
    rw [DirectoryRecord.length_of_encode hencode] at hlength
    exact (encodedLength_eq_rootRecordLength (DirectoryRecord.encode_eq_ok hencode).2.1).mp hlength
  · intro h
    have hname : r.name ≠ [] := List.ne_nil_of_length_eq_add_one h.1
    have hlength := (encodedLength_eq_rootRecordLength hname).mpr h
    have hfit : ¬ (255 < r.encodedLength ∨ r.name = []) := by
      rw [hlength, not_or]
      exact ⟨by decide, hname⟩
    refine ⟨_, if_neg hfit, ?_⟩
    rw [List.length_cons, DirectoryRecord.length_body, hlength]

/-- Writing goes by the root record, its length, and the number of the application's bytes. -/
theorem encode_eq (d : VolumeDescriptor) :
    d.encode = d.root.encode >>= fun root =>
      if root.length ≠ rootRecordLength then .error (.fieldOverflow root.length rootRecordLength)
      else if applicationUseLength < d.applicationUse.length then
        .error (.fieldOverflow d.applicationUse.length applicationUseLength)
      else .ok (d.layout root) := by
  rw [encode]
  refine congrArg (d.root.encode >>= ·) (funext fun root => ?_)
  dsimp only [bind, Except.bind]
  split
  · rfl
  · split <;> rfl

/-- A descriptor is encoded exactly if its root record can be and has the length that is fixed for it,
and its application use fits. -/
theorem encode_eq_ok :
    d.encode = .ok bytes ↔ ∃ root, d.root.encode = .ok root ∧ root.length = rootRecordLength ∧
      d.applicationUse.length ≤ applicationUseLength ∧ bytes = d.layout root := by
  rw [encode_eq, except_bind_eq_ok_iff]
  refine exists_congr fun root => and_congr_right fun _ => ?_
  split
  · next h => simp [h]
  · next h =>
    split
    · next hlong => simp [Nat.not_le.mpr hlong]
    · next hshort => simp [not_not.mp h, Nat.not_lt.mp hshort, eq_comm]

/-- Writing fails where something does not fit, and for no other cause: the error is always
`fieldOverflow`. -/
theorem encode_eq_error {cause : FormatError} (h : d.encode = .error cause) :
    ∃ len max, cause = .fieldOverflow len max := by
  rw [encode_eq] at h
  cases hroot : d.root.encode with
  | error cause' =>
    rw [hroot] at h
    cases h
    rw [DirectoryRecord.encode] at hroot
    split at hroot
    · cases hroot
      exact ⟨_, _, rfl⟩
    · cases hroot
  | ok root =>
    rw [hroot] at h
    dsimp only [bind, Except.bind] at h
    split at h
    · cases h
      exact ⟨_, _, rfl⟩
    · split at h
      · cases h
        exact ⟨_, _, rfl⟩
      · cases h

/-! ## Reading it back -/

/-- The descriptor is of one of the two types that have this layout, in a version of that type. -/
def HasLayout (d : VolumeDescriptor) : Prop :=
  d.type = .primary ∧ d.version = 1 ∨
    d.type = .supplementary ∧ (d.version = 1 ∨ d.version = 2)

theorem HasLayout.type_eq (h : d.HasLayout) : d.type = .primary ∨ d.type = .supplementary :=
  h.imp And.left And.left

/-- The version of a descriptor that has the layout is one that is accepted for its type. -/
theorem HasLayout.checkVersion (h : d.HasLayout) :
    (DescriptorHeader.mk d.type.code d.version).checkVersion d.type = .ok () := by
  have hversion : d.type.hasVersion d.version = true := by
    rcases h with ⟨htype, hversion⟩ | ⟨htype, hversion | hversion⟩ <;> rw [htype, hversion] <;> rfl
  rw [DescriptorHeader.checkVersion, if_pos hversion]

/-- The fields behind a head of one of the two types are read as those of a descriptor of that type. -/
theorem bind_type {α : Type} {type : DescriptorType} {cause : FormatError}
    (h : type = .primary ∨ type = .supplementary) (next : DescriptorType → Decoder α) :
    (match some type with
      | some .primary => pure .primary >>= next
      | some .supplementary => pure .supplementary >>= next
      | _ => throw cause >>= next) = next type := by
  rcases h with rfl | rfl <;> rfl

/-- All the fields are read back, whatever stands behind them in the sector. -/
theorem decoder_layout (policy : EndianPolicy) (h : d.HasLayout) {r : DirectoryRecord}
    (hlength : root.length = rootRecordLength) (hroot : DirectoryRecord.parse policy root = .ok r)
    (tail : Bytes) :
    decoder policy (d.layout root ++ tail) =
      .ok ({ d with root := r, applicationUse := Bytes.fit applicationUseLength 0 d.applicationUse },
        Bytes.zeros reservedLength ++ tail) := by
  have htype : (DescriptorHeader.mk d.type.code d.version).type? = some d.type :=
    DescriptorType.ofCode?_code d.type
  unfold layout
  simp only [List.append_assoc, List.cons_append, List.nil_append]
  rw [decoder, Decoder.bind_eq (DescriptorHeader.decoder_append ..), htype]
  refine (congrFun (bind_type h.type_eq _) _).trans ?_
  dsimp only
  rw [Decoder.bind_eq (Decoder.liftM_eq h.checkVersion _), Decoder.bind_eq (Decoder.byte_cons ..),
    Decoder.bind_eq (Decoder.field_append ..), Decoder.bind_eq (Decoder.field_append ..),
    Decoder.bind_eq (Decoder.skip_append (Bytes.length_zeros _) _),
    Decoder.bind_eq (Decoder.dual32_append ..), Decoder.bind_eq (Decoder.field_append ..),
    Decoder.bind_eq (Decoder.dual16_append ..), Decoder.bind_eq (Decoder.dual16_append ..),
    Decoder.bind_eq (Decoder.dual16_append ..), Decoder.bind_eq (Decoder.dual32_append ..),
    Decoder.bind_eq (Decoder.u32_append ..), Decoder.bind_eq (Decoder.u32_append ..),
    Decoder.bind_eq (Decoder.u32_append ..), Decoder.bind_eq (Decoder.u32_append ..),
    Decoder.bind_eq (Decoder.bytes_append hlength _), Decoder.bind_eq (Decoder.liftM_eq hroot _)]
  -- the seven identifiers behind the root record, and the four times
  iterate 11 rw [Decoder.bind_eq (Decoder.field_append ..)]
  rw [Decoder.bind_eq (Decoder.byte_cons ..),
    Decoder.bind_eq (Decoder.skip_append (Bytes.length_zeros _) _),
    Decoder.bind_eq (Decoder.bytes_append (Bytes.length_fit ..) _)]
  rfl

/-- The descriptor as it reads after it was written. -/
def recorded (d : VolumeDescriptor) : VolumeDescriptor :=
  { d with
    root := { d.root with length := 34 }
    applicationUse := Bytes.fit applicationUseLength 0 d.applicationUse }

/-- A root record reads as it is, but for its length, which is worked out when it is written. -/
theorem recorded_root {r : DirectoryRecord} (hname : r.name.length = 1) (hsystem : r.systemUse = []) :
    r.recorded = { r with length := 34 } := by
  have hlength : r.encodedLength = rootRecordLength :=
    (encodedLength_eq_rootRecordLength (List.ne_nil_of_length_eq_add_one hname)).mpr ⟨hname, hsystem⟩
  simp [DirectoryRecord.recorded, hlength, hsystem, rootRecordLength, Bytes.zeros]

/-- A descriptor that was written reads back under either policy, with the length of its root record
filled in. -/
theorem parse_encode (policy : EndianPolicy) (h : d.encode = .ok bytes) (hd : d.HasLayout) :
    parse policy bytes = .ok d.recorded := by
  obtain ⟨root, hencode, hlength, -, hbytes⟩ := encode_eq_ok.mp h
  obtain ⟨hname, hsystem⟩ := exists_root_iff.mp ⟨root, hencode, hlength⟩
  have hroot := DirectoryRecord.parse_encode policy hencode []
  rw [List.append_nil, recorded_root hname hsystem] at hroot
  have hdecode := decoder_layout policy hd hlength hroot []
  simp only [List.append_nil] at hdecode
  rw [hbytes, parse, if_neg (by rw [length_layout d hlength]; exact Nat.lt_irrefl _)]
  exact Decoder.decode_eq_ok.mpr ⟨_, hdecode⟩

/-- **Volume descriptors read back as they were written.** A descriptor can be written exactly if its
root record has an identifier of one byte and no system use area and the application's bytes fit;
otherwise something is reported to overflow its field. It takes one sector. What is read from that under
either policy, if the descriptor is of a type and a version that are read at all, is the descriptor with
the length that its root record has and with the application's bytes filled up with zeros. -/
theorem encode_reads_back (d : VolumeDescriptor) :
    ((∃ bytes, d.encode = .ok bytes) ↔
      d.root.name.length = 1 ∧ d.root.systemUse = [] ∧ d.applicationUse.length ≤ 512) ∧
    (∀ cause, d.encode = .error cause → ∃ len max, cause = .fieldOverflow len max) ∧
    ∀ bytes, d.encode = .ok bytes → bytes.length = sectorSize ∧
      (d.HasLayout → ∀ policy, parse policy bytes = .ok { d with
        root := { d.root with length := 34 }
        applicationUse := Bytes.fit 512 0 d.applicationUse }) := by
  refine ⟨⟨?_, ?_⟩, fun cause h => encode_eq_error h, fun bytes h => ⟨?_, ?_⟩⟩
  · rintro ⟨bytes, h⟩
    obtain ⟨root, hencode, hlength, hfit, -⟩ := encode_eq_ok.mp h
    obtain ⟨hname, hsystem⟩ := exists_root_iff.mp ⟨root, hencode, hlength⟩
    exact ⟨hname, hsystem, hfit⟩
  · rintro ⟨hname, hsystem, hfit⟩
    obtain ⟨root, hencode, hlength⟩ := exists_root_iff.mpr ⟨hname, hsystem⟩
    exact ⟨_, encode_eq_ok.mpr ⟨root, hencode, hlength, hfit, rfl⟩⟩
  · obtain ⟨root, -, hlength, -, hbytes⟩ := encode_eq_ok.mp h
    rw [hbytes]
    exact length_layout d hlength
  · exact fun hd policy => parse_encode policy h hd

/-- A descriptor of the second version with three bytes for the application is written and read back. -/
theorem encode_reads_back_enhanced :
    let root := DirectoryRecord.ofExtent [0x00] 18 2048 .directory
    let d := { blank .supplementary root with version := 2, applicationUse := [1, 2, 3] }
    ∃ bytes, d.encode = .ok bytes ∧ d.HasLayout ∧ parse .strict bytes =
      .ok { d with applicationUse := [1, 2, 3] ++ Bytes.zeros 509 } := by
  intro root d
  obtain ⟨bytes, hbytes⟩ := (encode_reads_back d).1.mpr ⟨rfl, rfl, by decide⟩
  have hd : d.HasLayout := .inr ⟨rfl, .inr rfl⟩
  exact ⟨bytes, hbytes, hd, ((encode_reads_back d).2.2 bytes hbytes).2 hd .strict⟩

end Ecma119.VolumeDescriptor
