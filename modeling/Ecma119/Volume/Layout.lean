import Ecma119.Volume.Descriptor

/-!
# The layout of a volume descriptor

A descriptor takes one sector. Reading and writing go through its fields in the same order; bytes
that the standard reserves are written as zeros and not looked at.
-/

namespace Ecma119.VolumeDescriptor

def rootRecordLength : Nat := 34

def reservedLength : Nat := 653

/-- The fields of a descriptor of one of the two types that have this layout. -/
def decoder (policy : EndianPolicy) : Decoder VolumeDescriptor := do
  let header ← DescriptorHeader.decoder
  let type ←
    match header.type? with
    | some .primary => pure DescriptorType.primary
    | some .supplementary => pure DescriptorType.supplementary
    | _ => throw (FormatError.unexpectedDescriptorType header.typeCode)
  header.checkVersion type
  let flags ← Decoder.byte
  let systemId ← Decoder.field 32
  let volumeId ← Decoder.field 32
  Decoder.skip 8
  let volumeSpaceSize ← Decoder.dual32 policy
  let escapeSequences ← Decoder.field 32
  let volumeSetSize ← Decoder.dual16 policy
  let volumeSequenceNumber ← Decoder.dual16 policy
  let logicalBlockSize ← Decoder.dual16 policy
  let pathTableSize ← Decoder.dual32 policy
  let typeLPathTable ← Decoder.u32 .little
  let optionalTypeLPathTable ← Decoder.u32 .little
  let typeMPathTable ← Decoder.u32 .big
  let optionalTypeMPathTable ← Decoder.u32 .big
  let root ← DirectoryRecord.parse policy (← Decoder.bytes rootRecordLength)
  let volumeSetId ← Decoder.field 128
  let publisherId ← Decoder.field 128
  let preparerId ← Decoder.field 128
  let applicationId ← Decoder.field 128
  let copyrightFileId ← Decoder.field 37
  let abstractFileId ← Decoder.field 37
  let bibliographicFileId ← Decoder.field 37
  let creationTime ← Decoder.field 17
  let modificationTime ← Decoder.field 17
  let expirationTime ← Decoder.field 17
  let effectiveTime ← Decoder.field 17
  let fileStructureVersion ← Decoder.byte
  Decoder.skip 1
  let applicationUse ← Decoder.bytes applicationUseLength
  return {
    type, version := header.version, flags, systemId, volumeId, volumeSpaceSize, escapeSequences,
    volumeSetSize, volumeSequenceNumber, logicalBlockSize, pathTableSize, typeLPathTable,
    optionalTypeLPathTable, typeMPathTable, optionalTypeMPathTable, root, volumeSetId, publisherId,
    preparerId, applicationId, copyrightFileId, abstractFileId, bibliographicFileId, creationTime,
    modificationTime, expirationTime, effectiveTime, fileStructureVersion, applicationUse }

/-- The primary or supplementary descriptor in a sector. A sector that is cut short is refused before
anything in it is looked at. -/
def parse (policy : EndianPolicy) (sector : Bytes) : Except FormatError VolumeDescriptor :=
  if sector.length < sectorSize then .error .truncatedRecord else (decoder policy).decode sector

/-- The descriptor's bytes, with `root` as the record of the root directory. -/
def layout (d : VolumeDescriptor) (root : Bytes) : Bytes :=
  (DescriptorHeader.mk d.type.code d.version).encode ++ [d.flags] ++ d.systemId.toList ++
    d.volumeId.toList ++ Bytes.zeros 8 ++ dualBytes32 d.volumeSpaceSize ++
    d.escapeSequences.toList ++ dualBytes16 d.volumeSetSize ++
    dualBytes16 d.volumeSequenceNumber ++ dualBytes16 d.logicalBlockSize ++
    dualBytes32 d.pathTableSize ++ ByteOrder.little.bytes32 d.typeLPathTable ++
    ByteOrder.little.bytes32 d.optionalTypeLPathTable ++ ByteOrder.big.bytes32 d.typeMPathTable ++
    ByteOrder.big.bytes32 d.optionalTypeMPathTable ++ root ++ d.volumeSetId.toList ++
    d.publisherId.toList ++ d.preparerId.toList ++ d.applicationId.toList ++
    d.copyrightFileId.toList ++ d.abstractFileId.toList ++ d.bibliographicFileId.toList ++
    d.creationTime.toList ++ d.modificationTime.toList ++ d.expirationTime.toList ++
    d.effectiveTime.toList ++ [d.fileStructureVersion] ++ Bytes.zeros 1 ++
    Bytes.fit applicationUseLength 0 d.applicationUse ++ Bytes.zeros reservedLength

/-- The sector that records a descriptor. The record of the root directory has room for an identifier
of one byte and nothing else. -/
def encode (d : VolumeDescriptor) : Except FormatError Bytes := do
  let root ← d.root.encode
  if root.length ≠ rootRecordLength then throw (.fieldOverflow root.length rootRecordLength)
  if applicationUseLength < d.applicationUse.length then
    throw (.fieldOverflow d.applicationUse.length applicationUseLength)
  return d.layout root

end Ecma119.VolumeDescriptor
