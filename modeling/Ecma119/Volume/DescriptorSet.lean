import Ecma119.Source
import Ecma119.Volume.Layout
import Ecma119.Volume.Mounted

/-!
# Reading the descriptor set

The descriptors stand in consecutive sectors from sector 16 on. The first has to be the primary one,
and a terminator has to follow within 64 sectors. Of the supplementary descriptors the first whose
Joliet level is made use of is kept.
-/

namespace Ecma119.Volume

variable {δ : Type} [BlockDevice δ]

/-- The number of sectors behind the primary descriptor among which the terminator has to be. -/
def maxDescriptors : Nat := 64

/-- The primary descriptor, which has to be the first of the set. -/
def readPrimary (options : MountOptions) : SourceM δ VolumeDescriptor := do
  let sector ← SectorSource.readSector descriptorSetStart
  let header ← DescriptorHeader.parse sector
  if header.type? ≠ some .primary then
    throw (.format (.unexpectedDescriptorType header.typeCode))
  VolumeDescriptor.parse options.policy sector

/-- The Joliet descriptor to be kept when a supplementary descriptor is met, where `kept` is the one
kept so far. Once one is kept, of the others only the version is looked at. -/
def keepJoliet (options : MountOptions) (header : DescriptorHeader) (sector : Bytes)
    (kept : Option VolumeDescriptor) : Except FormatError (Option VolumeDescriptor) := do
  header.checkVersion .supplementary
  match kept with
  | some descriptor => return some descriptor
  | none =>
    let candidate ← VolumeDescriptor.parse options.policy sector
    match candidate.jolietLevel? with
    | some level => return if options.extensions.hasJoliet level then some candidate else none
    | none => return none

/-- Goes through up to `count` sectors to the terminator and gives the Joliet descriptor kept. -/
def readSupplementary (options : MountOptions) :
    (count : Nat) → (lsn : UInt32) → (kept : Option VolumeDescriptor) →
      SourceM δ (Option VolumeDescriptor)
  | 0, _, _ => throw (.format .missingTerminator)
  | count + 1, lsn, kept => do
    let sector ← SectorSource.readSector lsn
    let header ← DescriptorHeader.parse sector
    match header.type? with
    | some .terminator => return kept
    | some .supplementary =>
      let kept ← keepJoliet options header sector kept
      readSupplementary options count (lsn + 1) kept
    | some .primary | some .bootRecord | some .partition =>
      readSupplementary options count (lsn + 1) kept
    | none => throw (.format (.unexpectedDescriptorType header.typeCode))

/-- Whether the first record of a directory has Rock Ridge entries. -/
def directoryHasRockRidge (options : MountOptions) (lsn : UInt32) : SourceM δ Bool := do
  let sector ← SectorSource.readSector lsn
  if sector.head? = some 0 then return false
  let record ← DirectoryRecord.parse options.policy sector
  return RockRidge.isPresent record.systemUse

/-- Reads the descriptor set: the primary descriptor, the Joliet one to be used, and whether Rock Ridge
is there. -/
def read (options : MountOptions) : SourceM δ Volume := do
  let primary ← readPrimary options
  let joliet ← readSupplementary options maxDescriptors (descriptorSetStart + 1) none
  let hasRockRidge ←
    if options.extensions.hasRockRidge then directoryHasRockRidge options primary.rootLsn
    else pure false
  return { primary, joliet, hasRockRidge }

end Ecma119.Volume
