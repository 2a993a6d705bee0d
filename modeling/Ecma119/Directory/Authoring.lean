import Ecma119.Directory.Record

/-!
# Authoring a directory extent

Records are appended to an extent of fixed size. One that would cross a sector boundary goes to the
start of the next sector, and the gap stays zero. An append that fails leaves the extent as it was.
-/

namespace Ecma119

/-- Work on a directory extent that can fail; what was written before a failure stays. -/
abbrev Authoring := ExceptT FormatError (StateM Bytes)

namespace Authoring

/-- The offset behind the last record, where `offset` bytes come before `rest` and the last record
among them ends at `lastEnd`. Zeros between records are passed over one by one. -/
def endOfRecordsFrom (offset lastEnd : Nat) : Bytes → Except FormatError Nat
  | [] => .ok lastEnd
  | b :: rest =>
    if b = 0 then endOfRecordsFrom (offset + 1) lastEnd rest
    else
      let tailLength := b.toNat - 1
      if (rest.take tailLength).length < tailLength then .error .truncatedRecord
      else endOfRecordsFrom (offset + b.toNat) (offset + b.toNat) (rest.drop tailLength)
termination_by rest => rest.length
decreasing_by
  · simp
  · simp only [List.length_drop, List.length_cons]
    omega

/-- The offset behind the last record of an extent. Zeros are passed over byte by byte. -/
def endOfRecords (extent : Bytes) : Except FormatError Nat := endOfRecordsFrom 0 0 extent

/-- Where `length` bytes that must not cross a sector boundary go, at or after `offset`. -/
def placeFor (offset length : Nat) : Nat :=
  if remainingInSector offset < length then alignToSector offset else offset

/-- Appends a record and gives the offset at which it was written. -/
def addRecord (record : DirectoryRecord) : Authoring Nat := do
  let bytes ← record.encode
  let extent ← get
  let offset := placeFor (← endOfRecords extent) bytes.length
  if extent.length < offset + bytes.length then throw .directoryFull
  set (Bytes.put extent offset bytes)
  return offset

/-- Appends a record of these parts and gives the offset at which it was written. -/
def addEntry (name : Bytes) (extent size : UInt32) (flags : FileFlags) (systemUse : Bytes) :
    Authoring Nat := do
  if name = [] then throw .invalidName
  addRecord { DirectoryRecord.ofExtent name extent size flags with systemUse }

/-- Clears the extent and writes the records of the directory itself and of its parent. -/
def beginDirectory (selfExtent selfSize parentExtent parentSize : UInt32) : Authoring Unit := do
  modify fun extent => Bytes.zeros extent.length
  let _ ← addEntry [0x00] selfExtent selfSize .directory []
  let _ ← addEntry [0x01] parentExtent parentSize .directory []

end Authoring

end Ecma119
