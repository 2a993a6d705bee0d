/-!
# Logical sectors and extents

The volume is addressed in logical sectors of 2048 bytes. The roundings that records, extents and
directories need come first, then extents: runs of logical sectors that hold consecutive bytes of a file.
Only the last sector of an extent can be partly used.
-/

namespace Ecma119

/-- Bytes in a logical sector. -/
abbrev sectorSize : Nat := 2048

/-- The logical sector number of the first volume descriptor. -/
abbrev descriptorSetStart : UInt32 := 16

def alignToSector (offset : Nat) : Nat := (offset + 2047) / sectorSize * sectorSize

/-- Bytes from `offset` to the next sector boundary after it, which is a whole sector away from a
boundary. -/
def remainingInSector (offset : Nat) : Nat := sectorSize - offset % sectorSize

/-- Sectors that `count` bytes occupy, as a number of 32 bits: part of a sector counts as a sector, and
no bytes take none. -/
def sectorsForBytes (count : Nat) : UInt32 := UInt32.ofNat ((count + 2047) / sectorSize)

/-- `len`, or one more where that is needed to be even, as records and entries start at even offsets. -/
def padEven (len : Nat) : Nat := len + len % 2

/-- Something of the sector always remains, as an offset at its end is at the start of the next. -/
theorem remainingInSector_pos (offset : Nat) : 0 < remainingInSector offset := by
  unfold remainingInSector sectorSize
  omega

theorem padEven_mod_two (len : Nat) : padEven len % 2 = 0 := by
  unfold padEven
  omega

/-! ## Extents -/

/-- A run of logical sectors. -/
structure Extent where
  /-- The logical sector at which it starts. -/
  lsn : UInt32
  /-- The number of bytes in it. -/
  size : UInt32
deriving DecidableEq

namespace Extent

def sectorCount (e : Extent) : UInt32 := sectorsForBytes e.size.toNat

/-- The number of the sector behind its last one, which need not itself be a number of 32 bits. -/
def endLsn (e : Extent) : Nat := e.lsn.toNat + e.sectorCount.toNat

def contains (e : Extent) (lsn : UInt32) : Bool := e.lsn ≤ lsn && lsn.toNat < e.endLsn

/-- A byte count of 32 bits never takes too many sectors to be counted, so that the number is what was
worked out. -/
theorem toNat_sectorCount (e : Extent) : e.sectorCount.toNat = (e.size.toNat + 2047) / 2048 := by
  have hsize := e.size.toNat_lt
  simp only [sectorCount, sectorsForBytes, sectorSize, UInt32.toNat_ofNat']
  omega

end Extent

end Ecma119
