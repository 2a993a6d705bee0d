import Ecma119.Device
import Ecma119.Error
import Ecma119.Sector

/-!
# Reading logical sectors

Images differ in how they hold the logical sectors: bare, or each in a frame with the sync bytes, the
header and the error correction of the raw disc; with something in front of them, or with their start
cut off. A `Framing` tells how.

A `SectorSource` is a device together with the framing of the image on it. Bytes are read at any
offset: where offset and length are whole blocks the device writes into the destination, otherwise
the blocks around the bytes are read and cut. Nothing is read from the device where the request goes
past its end.
-/

namespace Ecma119

/-! ## Framings -/

/-- How logical sectors lie in the bytes of an image. -/
structure Framing where
  /-- The number of bytes from one sector to the next. -/
  frameSize : UInt32
  /-- The offset of the data of logical sector 0; negative where the image starts behind it. -/
  dataStart : Int64
deriving DecidableEq

namespace Framing

/-- Bare sectors from the first byte on, as in an image that holds nothing but the volume. -/
def standard : Framing := ⟨2048, 0⟩

/-- The offset of the data of a sector, if it does not lie before the image. It is worked out in 64 bits
with a sign, so that it wraps around where it takes more: a sector that is too far behind the start is
taken for one before it, or found near the start again. -/
def byteOffset? (f : Framing) (lsn : UInt32) : Option Nat :=
  let offset := Int64.ofNat lsn.toNat * Int64.ofNat f.frameSize.toNat + f.dataStart
  if 0 ≤ offset then some offset.toNatClampNeg else none

/-- Whether the data of sectors follow each other without gaps, so that several can be read at once. -/
def isContiguous (f : Framing) : Bool := f.frameSize.toNat = sectorSize

end Framing

/-! ## Sources -/

/-- A device and the framing of the image on it. -/
structure SectorSource (δ : Type) where
  device : δ
  framing : Framing
  /-- The number of bytes on the device, once it has told. -/
  knownLength : Option UInt64

/-- Work with a source that can fail; what became of the source is kept either way. -/
abbrev SourceM (δ : Type) := ExceptT Error (StateM (SectorSource δ))

structure Fill where
  /-- Whether it was filled, and if not, why. -/
  outcome : Except Error Unit
  /-- What it holds afterwards. -/
  destination : Bytes

/-- A fault of recorded bytes is a failure of the work that meets it. -/
instance {δ : Type} : MonadLift (Except FormatError) (SourceM δ) where
  monadLift result := ExceptT.mk (pure (result.mapError Error.format))

namespace SectorSource

/-- A device with bare sectors. -/
def ofDevice {δ : Type} (device : δ) (framing : Framing := .standard) : SectorSource δ where
  device
  framing
  knownLength := none

variable {δ : Type} [BlockDevice δ]

/-- What the work comes to, as a value: work that fails is gone on from, in the state in which it was
left. -/
def attempt {α : Type} (work : SourceM δ α) : SourceM δ (Except Error α) :=
  ExceptT.mk (do return .ok (← work.run))

def getFraming : SourceM δ Framing := do
  return (← get).framing

def setFraming (framing : Framing) : SourceM δ Unit := modify fun s => { s with framing }

/-- The number of blocks on the device. A device that refuses to tell fails the request, at block 0. -/
def blockCount : SourceM δ UInt64 := do
  match BlockDevice.blockCount (← get).device with
  | .ok count => return count
  | .error message => throw (.io 0 message)

/-- The number of bytes on the device, which is asked for once. Of a device that has more of them than 64
bits can tell, it is what these tell. -/
def byteLength : SourceM δ UInt64 := do
  match (← get).knownLength with
  | some length => return length
  | none =>
    let length := (← blockCount) * (BlockDevice.blockSize (← get).device).toUInt64
    modify fun s => { s with knownLength := some length }
    return length

/-! ## Filling a destination -/

/-- Fills a destination of whole blocks. Whatever the device makes of it is kept, also when it fails. -/
def fillBlocks (first : Nat) (destination : Bytes) : StateM (SectorSource δ) Fill := do
  let read := BlockDevice.readBlocks (← get).device first destination
  modify fun s => { s with device := read.device }
  return ⟨read.outcome.mapError (Error.io first), read.destination⟩

/-- Fills a destination with the bytes from `offset` on, which have to end below `2 ^ 64`. Nothing is read
unless all of them are in what the device claims to have. Blocks are read into the destination itself only
where nothing has to be cut off. -/
def fillBytes (offset : Nat) (destination : Bytes) : StateM (SectorSource δ) Fill := do
  if destination.isEmpty then return ⟨.ok (), destination⟩
  let blockSize := (BlockDevice.blockSize (← get).device).toNat
  let first := offset / blockSize
  let stop := offset + destination.length
  match ← (byteLength (δ := δ)).run with
  | .error failure => return ⟨.error failure, destination⟩
  | .ok length =>
    if length.toNat < stop then return ⟨.error (.io first "read past end of source"), destination⟩
    else if offset % blockSize = 0 ∧ destination.length % blockSize = 0 then
      fillBlocks first destination
    else
      let blocks := (stop + blockSize - 1) / blockSize - first
      let fill ← fillBlocks first (Bytes.zeros (blocks * blockSize))
      match fill.outcome with
      | .error failure => return ⟨.error failure, destination⟩
      | .ok () =>
        return ⟨.ok (), fill.destination.slice (offset - first * blockSize) destination.length⟩

/-- The offset of a sector's data. A sector before the start of the image is a failure, reported for its
number. -/
def sectorOffset (lsn : UInt32) : SourceM δ Nat := do
  match (← getFraming).byteOffset? lsn with
  | some offset => return offset
  | none => throw (.io lsn.toNat "sector lies before start of source")

/-- Fills a destination of one sector's length with a sector. A sector before the image fails without a
read. -/
def fillSector (lsn : UInt32) (destination : Bytes) : StateM (SectorSource δ) Fill := do
  match ← (sectorOffset (δ := δ) lsn).run with
  | .error failure => return ⟨.error failure, destination⟩
  | .ok offset => fillBytes offset destination

/-! ## Reading -/

/-- What a new destination of `length` bytes holds once it is filled. -/
def filled (length : Nat) (fill : Bytes → StateM (SectorSource δ) Fill) : SourceM δ Bytes := do
  match ← fill (Bytes.zeros length) with
  | ⟨.ok (), bytes⟩ => return bytes
  | ⟨.error failure, _⟩ => throw failure

/-- The `length` bytes from `offset` on, or the failure of filling a destination with them. -/
def readBytes (offset length : Nat) : SourceM δ Bytes := filled length (fillBytes offset)

/-- The data of a sector, without what else its frame has. -/
def readSector (lsn : UInt32) : SourceM δ Bytes := filled sectorSize (fillSector lsn)

/-- The next `count` sectors, each read on its own, up to the first that fails. -/
def readEachSector (lsn : UInt32) : (count : Nat) → SourceM δ Bytes
  | 0 => return []
  | count + 1 => do
    let sector ← readSector lsn
    let rest ← readEachSector (lsn + 1) count
    return sector ++ rest

/-- The next `count` sectors, read at once where they follow each other without gaps. -/
def readSectors (lsn count : UInt32) : SourceM δ Bytes := do
  let length := count.toNat * sectorSize
  let offset ← sectorOffset lsn
  if (← byteLength).toNat < offset + length then
    throw (.io lsn.toNat "extent runs past end of source")
  if (← getFraming).isContiguous then readBytes offset length
  else readEachSector lsn count.toNat

end SectorSource

end Ecma119
