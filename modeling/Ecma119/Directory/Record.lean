import Ecma119.Numeric
import Ecma119.Sector
import Ecma119.Time.Short

/-!
# Directory records

A record describes one extent of a file or a directory. Its head of 33 bytes ends with the length of
the identifier; the identifier, a byte that makes the length so far even, and the system use area
follow. `DirectoryRecord.encode` always writes an even number of bytes, though records of odd length
are read. One byte of the head has the flags, which tell what kind of file it is; unassigned bits are kept.
-/

namespace Ecma119

/-! ## Flags -/

structure FileFlags where
  bits : UInt8
deriving DecidableEq

namespace FileFlags

/-- The flags of a directory and of nothing else. -/
def directory : FileFlags := ⟨0x02⟩

/-- Whether all bits of `mask` are set; other bits are not looked at. -/
def has (flags : FileFlags) (mask : UInt8) : Bool := flags.bits &&& mask = mask

def isHidden (flags : FileFlags) : Bool := flags.has 0x01

def isDirectory (flags : FileFlags) : Bool := flags.has 0x02

/-- Whether the file goes on in the next record, so that this extent is not its last. -/
def isMultiExtent (flags : FileFlags) : Bool := flags.has 0x80

end FileFlags

/-! ## Records -/

structure DirectoryRecord where
  /-- The length that the record gives itself; authoring works it out anew. -/
  length : UInt8
  extAttrLength : UInt8
  /-- The logical sector at which the extent starts. -/
  extent : UInt32
  /-- The number of bytes in the extent. -/
  size : UInt32
  recordingTime : Field 7
  flags : FileFlags
  fileUnitSize : UInt8
  interleaveGap : UInt8
  volumeSequenceNumber : UInt16
  name : Bytes
  systemUse : Bytes
deriving DecidableEq

namespace DirectoryRecord

/-- The length of the part before the identifier, which is the same in every record. -/
def headLength : Nat := 33

def minLength : Nat := 34

/-- The number of bytes that a record with such an identifier and system use area takes. -/
def sizeFor (nameLength systemUseLength : Nat) : Nat :=
  padEven (padEven (headLength + nameLength) + systemUseLength)

/-- A record to be authored, with neither a time nor a system use area. -/
def ofExtent (name : Bytes) (extent size : UInt32) (flags : FileFlags) : DirectoryRecord where
  length := UInt8.ofNat (min (sizeFor name.length 0) 255)
  extAttrLength := 0
  extent
  size
  recordingTime := Field.filled 7 0
  flags
  fileUnitSize := 0
  interleaveGap := 0
  volumeSequenceNumber := 1
  name
  systemUse := []

/-! ## Reading -/

/-- Whether the lengths at the front of `data` agree with each other and with the bytes there are. -/
def lengthsAgree (data : Bytes) : Bool :=
  let length := (data.getD 0 0).toNat
  let nameLength := (data.getD 32 0).toNat
  minLength ≤ length && length ≤ data.length && nameLength ≠ 0 && headLength + nameLength ≤ length

/-- The parts of a record that is cut to its length. Both numbers that are recorded twice are read under
the policy. -/
def decoder (policy : EndianPolicy) : Decoder DirectoryRecord := do
  let length ← Decoder.byte
  let extAttrLength ← Decoder.byte
  let extent ← Decoder.dual32 policy
  let size ← Decoder.dual32 policy
  let recordingTime ← Decoder.field 7
  let flags ← Decoder.byte
  let fileUnitSize ← Decoder.byte
  let interleaveGap ← Decoder.byte
  let volumeSequenceNumber ← Decoder.dual16 policy
  let nameLength ← Decoder.byte
  let name ← Decoder.bytes nameLength.toNat
  Decoder.skip ((headLength + name.length) % 2)
  let systemUse ← Decoder.rest
  return { length, extAttrLength, extent, size, recordingTime, flags := ⟨flags⟩, fileUnitSize,
           interleaveGap, volumeSequenceNumber, name, systemUse }

/-- The record at the front of `data`; what follows it is ignored. -/
def parse (policy : EndianPolicy) (data : Bytes) : Except FormatError DirectoryRecord :=
  if lengthsAgree data then (decoder policy).decode (data.take (data.getD 0 0).toNat)
  else .error .truncatedRecord

/-! ## Writing -/

/-- The number of bytes that the record takes when it is written, its padding included. -/
def encodedLength (r : DirectoryRecord) : Nat := sizeFor r.name.length r.systemUse.length

/-- The parts of the record behind its length. -/
def body (r : DirectoryRecord) : Bytes :=
  [r.extAttrLength] ++ dualBytes32 r.extent ++ dualBytes32 r.size ++ r.recordingTime.toList ++
    [r.flags.bits, r.fileUnitSize, r.interleaveGap] ++ dualBytes16 r.volumeSequenceNumber ++
    [UInt8.ofNat r.name.length] ++ r.name ++ Bytes.zeros ((headLength + r.name.length) % 2) ++
    r.systemUse ++ Bytes.zeros (r.systemUse.length % 2)

/-- The record's bytes. A length has to fit into one byte, and an identifier has to be there. -/
def encode (r : DirectoryRecord) : Except FormatError Bytes :=
  if 255 < r.encodedLength ∨ r.name = [] then .error (.fieldOverflow r.encodedLength 255)
  else .ok (UInt8.ofNat r.encodedLength :: r.body)

/-! ## What a record tells -/

/-- Whether it is the record of the directory it stands in. -/
def isSelf (r : DirectoryRecord) : Bool := r.name = [0x00]

def isParent (r : DirectoryRecord) : Bool := r.name = [0x01]

/-- Whether it is one of the two records that every directory starts with. -/
def isDot (r : DirectoryRecord) : Bool := r.isSelf || r.isParent

/-- The time at which the file was recorded, if one is given. -/
def time (r : DirectoryRecord) : Except FormatError (Option ZonedTime) :=
  decodeShortTime r.recordingTime

def sectorCount (r : DirectoryRecord) : UInt32 := sectorsForBytes r.size.toNat

end DirectoryRecord

end Ecma119
