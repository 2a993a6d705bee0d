import Ecma119.Bytes

/-!
# Block devices

A device is read in whole blocks of one size. A read is given the bytes of the destination and leaves
others there; a read that fails may leave anything, which is why the destination is part of its
answer. Failures are told in words.

A `MemoryDevice` has an image at hand as bytes. For trying out what readers do with a failing device,
blocks can be marked as bad, the device can claim another number of blocks than it has, and it can refuse
to tell their number. Every read is written down, those that fail too.
-/

namespace Ecma119

structure BlockRead (δ : Type) where
  /-- Whether the blocks were read, and if not, why. -/
  outcome : Except String Unit
  /-- What the destination holds afterwards. -/
  destination : Bytes
  /-- The device afterwards. -/
  device : δ

/-- A device that is read in blocks. -/
class BlockDevice (δ : Type) where
  /-- The number of bytes in a block. -/
  blockSize : δ → UInt32
  /-- The number of blocks, if the device can tell. -/
  blockCount : δ → Except String UInt64
  /-- Reads blocks from number `first` on into a destination of a whole number of blocks. -/
  readBlocks : (device : δ) → (first : Nat) → (destination : Bytes) → BlockRead δ

/-! ## Devices in memory -/

structure MemoryDevice where
  /-- The bytes of all blocks. -/
  data : Array UInt8
  blockSize : UInt32
  /-- The number of blocks that the device claims to have, if not the number it has. -/
  claimedBlocks : Option UInt64
  /-- Blocks that cannot be read. -/
  badBlocks : List Nat
  /-- Whether the device refuses to tell how many blocks it has. -/
  sizeUnknown : Bool
  /-- First block and number of bytes of every read so far, the latest first. -/
  reads : List (Nat × Nat)

namespace MemoryDevice

/-- A device without faults that holds these bytes, filled up with zeros to whole blocks. -/
def ofBytes (blockSize : UInt32) (bytes : Bytes) : MemoryDevice where
  data := (Bytes.fit ((bytes.length + blockSize.toNat - 1) / blockSize.toNat * blockSize.toNat) 0
    bytes).toArray
  blockSize
  claimedBlocks := none
  badBlocks := []
  sizeUnknown := false
  reads := []

/-- The first bad block, in the order in which they are listed, among those of a read. -/
def badBlock? (d : MemoryDevice) (first length : Nat) : Option Nat :=
  let stop := first + (length + d.blockSize.toNat - 1) / d.blockSize.toNat
  d.badBlocks.find? fun block => first ≤ block && block < stop

/-- Reads blocks; a read that fails leaves the destination as it is. -/
def read (d : MemoryDevice) (first : Nat) (destination : Bytes) : BlockRead MemoryDevice :=
  let length := destination.length
  let start := first * d.blockSize.toNat
  let device := { d with reads := (first, length) :: d.reads }
  match d.badBlock? first length with
  | some block => ⟨.error ("bad block " ++ toString block), destination, device⟩
  | none =>
    if d.data.size < start + length then
      ⟨.error "read beyond end of device", destination, device⟩
    else ⟨.ok (), (d.data.extract start (start + length)).toList, device⟩

instance : BlockDevice MemoryDevice where
  blockSize d := d.blockSize
  blockCount d :=
    if d.sizeUnknown then .error "device size unknown"
    else .ok (d.claimedBlocks.getD (.ofNat (d.data.size / d.blockSize.toNat)))
  readBlocks := read

def poke (d : MemoryDevice) (offset : Nat) (bytes : Bytes) : MemoryDevice :=
  { d with data := (bytes.zipIdx offset).foldl (fun data (b, i) => data.setIfInBounds i b) d.data }

end MemoryDevice

end Ecma119
