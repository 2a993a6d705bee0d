import Ecma119.Proofs.Directory.Halves
import Ecma119.Volume.Layout

/-!
# Halves in volume descriptors

A descriptor has five numbers that are recorded both ways, and those of the root directory's record.
-/

namespace Ecma119

theorem DescriptorHeader.takes_decoder : Decoder.Takes 7 DescriptorHeader.decoder :=
  .bind .byte fun _ => .bind (.bytes 5) fun _ => .bind .byte fun _ =>
    .bind (.require _ _) fun _ => .pure _

namespace VolumeDescriptor

/-- The numbers of blocks and of volumes in the set, of this volume in it, the sizes of a block and
of a path table, and the numbers in the record of the root directory. -/
def dualFields : List DualField :=
  [⟨80, 4⟩, ⟨120, 2⟩, ⟨124, 2⟩, ⟨128, 2⟩, ⟨132, 4⟩] ++
    DirectoryRecord.dualFields.map (DualField.shift 156)

/-- A descriptor is decoded with its numbers and those of its root record reconciled, and nothing else in
it depends on the policy. -/
theorem reconciles_decoder : Reconciles dualFields fun policy => (decoder policy).decode := by
  apply Reconciles.of_eq
  · apply Reconciles.bind_const DescriptorHeader.takes_decoder
    intro header
    cases header.type? with
    | none => apply Reconciles.throw
    | some type =>
      cases type with
      | bootRecord | partition | terminator => apply Reconciles.throw
      | primary | supplementary =>
        apply Reconciles.bind_const (.pure _)
        intro type
        apply Reconciles.bind_const (.liftM _)
        intro checked
        apply Reconciles.bind_const .byte
        intro flags
        apply Reconciles.bind_const (.field 32)
        intro systemId
        apply Reconciles.bind_const (.field 32)
        intro volumeId
        apply Reconciles.bind_const (.skip 8)
        intro reserved
        apply Reconciles.bind .dual32 (by decide) .dual32
        intro volumeSpaceSize
        apply Reconciles.bind_const (.field 32)
        intro escapeSequences
        apply Reconciles.bind .dual16 (by decide) .dual16
        intro volumeSetSize
        apply Reconciles.bind .dual16 (by decide) .dual16
        intro volumeSequenceNumber
        apply Reconciles.bind .dual16 (by decide) .dual16
        intro logicalBlockSize
        apply Reconciles.bind .dual32 (by decide) .dual32
        intro pathTableSize
        apply Reconciles.bind_const (.u32 .little)
        intro typeLPathTable
        apply Reconciles.bind_const (.u32 .little)
        intro optionalTypeLPathTable
        apply Reconciles.bind_const (.u32 .big)
        intro typeMPathTable
        apply Reconciles.bind_const (.u32 .big)
        intro optionalTypeMPathTable
        apply Reconciles.bind_record (by decide) DirectoryRecord.reconciles_parse
        intro root
        exact .const _
  · rfl

/-- Strict reading of a descriptor is lenient reading of one whose halves agree, its root record
included. -/
theorem reconciles_parse : Reconciles dualFields parse := by
  apply reconciles_decoder.cut .truncatedRecord fun sector =>
    if sector.length < sectorSize then none else some sector.length
  · intro sector sector' h
    rw [h.length_eq]
  · intro sector n hn f hf
    have hends : ∀ f ∈ dualFields, f.EndsBy sectorSize := by decide
    rw [Option.mem_def] at hn
    split at hn
    · cases hn
    · next hlength =>
      cases hn
      exact Nat.le_trans (hends f hf) (Nat.le_of_not_lt hlength)
  · intro policy sector
    rw [parse]
    split
    · rfl
    · exact congrArg _ List.take_length.symm

end VolumeDescriptor

end Ecma119
