import Ecma119.Directory.Entry
import Ecma119.Source

/-!
# Reading a file

A reader stands at a position in a file and keeps the sector it read last. It finds the sector of a
position by going through the extents, and delivers bytes sector by sector.

A file is also read whole, into a buffer of the caller's or into a new one. The size that the entry gives
has to be there.
-/

namespace Ecma119

structure FilePlace where
  lsn : UInt32
  /-- The offset in the sector. -/
  inSector : Nat
  /-- The number of bytes of the file from there to the end of the sector or of the extent. -/
  available : Nat
  available_pos : 0 < available

/-- The place of the byte at `position` in a sequence of extents. Sector numbers have 32 bits, so that an
extent that went past the last of them would go on at sector 0. -/
def locate : (extents : List Extent) → (position : Nat) → Option FilePlace
  | [], _ => none
  | x :: rest, position =>
    if h : position < x.size.toNat then
      some {
        lsn := x.lsn + UInt32.ofNat (position / sectorSize)
        inSector := position % sectorSize
        available := min (sectorSize - position % sectorSize) (x.size.toNat - position)
        available_pos := by unfold sectorSize; omega }
    else locate rest (position - x.size.toNat)

/-- A place in a file, and the sector that was read last. -/
structure FileReader where
  extents : List Extent
  /-- The number of bytes before the place; it may be past the end. -/
  position : Nat
  /-- The bytes of the sector buffer. -/
  sector : Bytes
  /-- The sector that the buffer was last filled with. -/
  cached : Option UInt32

/-- What a read delivers: the bytes, the failure that cut it short if any, and the reader behind it. -/
structure Delivery where
  bytes : Bytes
  failure : Option Error
  reader : FileReader

namespace FileReader

def ofEntry (file : Entry) : FileReader where
  extents := file.extents
  position := 0
  sector := Bytes.zeros sectorSize
  cached := none

def seek (r : FileReader) (position : Nat) : FileReader := { r with position }

variable {δ : Type} [BlockDevice δ]

/-- Fills the buffer with a sector unless it was filled with that one last. -/
def load (r : FileReader) (lsn : UInt32) :
    StateM (SectorSource δ) (Except Error Unit × FileReader) := do
  if r.cached = some lsn then return (.ok (), r)
  match ← SectorSource.fillSector lsn r.sector with
  | ⟨.ok (), sector⟩ => return (.ok (), { r with sector, cached := some lsn })
  | ⟨.error failure, sector⟩ => return (.error failure, { r with sector })

/-- Delivers up to `want` bytes, fewer at the end of the file or at a failure. -/
def deliver (r : FileReader) (want : Nat) : StateM (SectorSource δ) Delivery :=
  if want = 0 then return ⟨[], none, r⟩
  else
    match locate r.extents r.position with
    | none => return ⟨[], none, r⟩
    | some place => do
      match ← r.load place.lsn with
      | (.error failure, r) => return ⟨[], some failure, r⟩
      | (.ok (), r) =>
        let count := min place.available want
        let chunk := r.sector.slice place.inSector count
        let later ← (r.seek (r.position + count)).deliver (want - count)
        return { later with bytes := chunk ++ later.bytes }
termination_by want
decreasing_by
  have := place.available_pos
  omega

/-- Reads into a buffer: the number of bytes read or the failure, the buffer and the reader
afterwards. -/
def read (r : FileReader) (buffer : Bytes) :
    StateM (SectorSource δ) (Except Error Nat × Bytes × FileReader) := do
  let delivery ← r.deliver buffer.length
  let outcome :=
    match delivery.failure with
    | some failure => .error failure
    | none => .ok delivery.bytes.length
  return (outcome, buffer.put 0 delivery.bytes, delivery.reader)

end FileReader

/-! ## The content of a file -/

namespace Entry
variable {δ : Type} [BlockDevice δ]

/-- Reads a file into a buffer, which may be larger: the number of bytes or the failure, and the
buffer afterwards. -/
def readInto (file : Entry) (buffer : Bytes) :
    StateM (SectorSource δ) (Except Error Nat × Bytes) := do
  if buffer.length < file.size then
    return (.error (.format (.fieldOverflow file.size buffer.length)), buffer)
  let (outcome, bytes, _) ← (FileReader.ofEntry file).read (buffer.take file.size)
  let buffer := bytes ++ buffer.drop file.size
  match outcome with
  | .error failure => return (.error failure, buffer)
  | .ok count =>
    if count = file.size then return (.ok count, buffer)
    else return (.error (.format .truncatedRecord), buffer)

/-- The bytes of a file. A size that exceeds the device's is not tried. -/
def content (file : Entry) : SourceM δ Bytes := do
  if (← SectorSource.byteLength).toNat < file.size then throw (.format .truncatedRecord)
  match ← file.readInto (δ := δ) (Bytes.zeros file.size) with
  | (.ok _, bytes) => return bytes
  | (.error failure, _) => throw failure

end Entry

end Ecma119
