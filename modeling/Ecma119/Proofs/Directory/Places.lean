import Ecma119.Proofs.Directory.RecordRestored

/-!
# The places of a record's parts

A decoder takes the parts of a record one after the other off the front. Here they are taken from
their places instead, and a place that is not in the data is told from one that is:
`Bytes.range?` and a look at a single byte give nothing there. As far as the lengths in a record have
been checked, no such place comes up, and what the parts make is the same record
(`DirectoryRecord.parseInPlace?_eq`).
-/

namespace Ecma119

namespace Bytes

variable {data : Bytes} {start stop : Nat}

/-- The bytes from `start` up to `stop`, if these are places in the data and in this order. -/
def range? (data : Bytes) (start stop : Nat) : Option Bytes :=
  if start ≤ stop ∧ stop ≤ data.length then some (data.slice start (stop - start)) else none

/-- A range that is in order and ends in the data is the slice from its start to its end. -/
theorem range?_eq_some (horder : start ≤ stop) (hinside : stop ≤ data.length) :
    data.range? start stop = some (data.slice start (stop - start)) :=
  if_pos ⟨horder, hinside⟩

theorem drop_take_eq_slice (data : Bytes) (start stop : Nat) :
    (data.take stop).drop start = data.slice (min start stop) (stop - min start stop) := by
  rw [List.drop_take]
  by_cases h : start ≤ stop
  · rw [Nat.min_eq_left h, slice]
  · rw [Nat.min_eq_right (by omega), Nat.sub_self, Nat.sub_eq_zero_of_le (by omega), slice,
      List.take_zero, List.take_zero]

end Bytes

namespace Decoder

variable {α β : Type} {n offset : Nat} {data : Bytes}

/-- A part that takes `n` bytes is decoded from the bytes at its place, whatever is behind them. -/
theorem Takes.decode_drop {part : Decoder α} (h : Takes n part) (data : Bytes) (offset : Nat) :
    part.decode (data.drop offset) = part.decode (data.slice offset n) := by
  refine h.decode_eq ?_
  rw [Bytes.slice, List.take_take, Nat.min_self]

/-- What comes behind such a part is decoded from the bytes behind its place. This walks through a
layout. -/
theorem Takes.decode_bind_drop {part : Decoder α} {next : α → Decoder β} (h : Takes n part) :
    (part >>= next).decode (data.drop offset) =
      part.decode (data.slice offset n) >>= fun a => (next a).decode (data.drop (offset + n)) := by
  rw [h.decode_bind, h.decode_drop, List.drop_drop]

/-- A part that is there is handed on, and the next part is decoded from right behind it. -/
theorem Takes.decode_bind_ok {part : Decoder α} {next : α → Decoder β} (h : Takes n part) {a : α}
    (hpart : part.decode (data.slice offset n) = .ok a) :
    (part >>= next).decode (data.drop offset) = (next a).decode (data.drop (offset + n)) := by
  rw [h.decode_bind_drop, hpart]
  rfl

theorem decode_byte {b : UInt8} (h : data[offset]? = some b) :
    byte.decode (data.slice offset 1) = .ok b := by
  have hslice : data.slice offset 1 = [b] := by
    rw [Bytes.slice, ← List.singleton_append, List.take_one, List.head?_drop, h]
    rfl
  rw [hslice]
  rfl

/-- A field is decoded from its place, if that lies in the data. -/
theorem decode_field (h : offset + n ≤ data.length) :
    (field n).decode (data.slice offset n) = .ok (Field.ofBytes n (data.slice offset n) 0) := by
  have hlength := Bytes.length_slice h
  have hfield : field n (data.slice offset n) = .ok (Field.ofBytes n (data.slice offset n) 0, []) := by
    refine field_eq_ok.mpr ⟨by omega, ?_, ?_⟩
    · rw [Field.toList_ofBytes hlength, List.take_of_length_le (by omega)]
    · rw [List.drop_of_length_le (by omega)]
  exact decode_eq_ok.mpr ⟨[], hfield⟩

/-- Bytes are decoded from their place as they are, if that lies in the data. -/
theorem decode_bytes_slice (h : offset + n ≤ data.length) :
    (bytes n).decode (data.slice offset n) = .ok (data.slice offset n) := by
  have hlength := Bytes.length_slice h
  rw [decode_bytes, if_neg (by omega), List.take_of_length_le (by omega)]

end Decoder

namespace DirectoryRecord

open Decoder (Takes)

variable {policy : EndianPolicy} {data : Bytes}

/-- The parts of a record with these lengths, from certain places of the data; `none` if one of these
places is not there. -/
def partsInPlace? (policy : EndianPolicy) (data : Bytes) (length : UInt8) (nameEnd : Nat) :
    Option (Except FormatError DirectoryRecord) := do
  let extAttrLength ← data[1]?
  let extent ← data.range? 2 10
  let size ← data.range? 10 18
  let recordingTime ← data.range? 18 25
  let flags ← data[25]?
  let fileUnitSize ← data[26]?
  let interleaveGap ← data[27]?
  let volumeSequenceNumber ← data.range? 28 32
  let name ← data.range? headLength nameEnd
  let systemUse ← data.range? (min (padEven nameEnd) length.toNat) length.toNat
  return do
    let extent ← (Decoder.dual32 policy).decode extent
    let size ← (Decoder.dual32 policy).decode size
    let volumeSequenceNumber ← (Decoder.dual16 policy).decode volumeSequenceNumber
    return { length, extAttrLength, extent, size,
             recordingTime := Field.ofBytes 7 recordingTime 0, flags := ⟨flags⟩, fileUnitSize,
             interleaveGap, volumeSequenceNumber, name, systemUse }

/-- The record at the front of `data`, every part of which is taken from its place; `none` if a place
is asked for that is not there. -/
def parseInPlace? (policy : EndianPolicy) (data : Bytes) :
    Option (Except FormatError DirectoryRecord) :=
  if data.length < minLength then some (.error .truncatedRecord)
  else do
    let length ← data[0]?
    if length.toNat < minLength ∨ data.length < length.toNat then
      return .error .truncatedRecord
    let nameLength ← data[32]?
    if nameLength.toNat = 0 ∨ length.toNat < headLength + nameLength.toNat then
      return .error .truncatedRecord
    partsInPlace? policy data length (headLength + nameLength.toNat)

/-- The decoder of a record takes the parts one after the other from their places. -/
theorem decode_decoder {length extAttrLength flags fileUnitSize interleaveGap nameLength : UInt8}
    (hlength : data[0]? = some length) (hext : data[1]? = some extAttrLength)
    (hflags : data[25]? = some flags) (hunit : data[26]? = some fileUnitSize)
    (hgap : data[27]? = some interleaveGap) (hname : data[32]? = some nameLength)
    (hend : headLength + nameLength.toNat ≤ data.length) :
    (decoder policy).decode data = do
      let extent ← (Decoder.dual32 policy).decode (data.slice 2 8)
      let size ← (Decoder.dual32 policy).decode (data.slice 10 8)
      let volumeSequenceNumber ← (Decoder.dual16 policy).decode (data.slice 28 4)
      return { length, extAttrLength, extent, size,
               recordingTime := Field.ofBytes 7 (data.slice 18 7) 0, flags := ⟨flags⟩, fileUnitSize,
               interleaveGap, volumeSequenceNumber, name := data.slice headLength nameLength.toNat,
               systemUse := data.drop (padEven (headLength + nameLength.toNat)) } := by
  unfold headLength at hend
  show (decoder policy).decode (data.drop 0) = _
  rw [decoder, Takes.byte.decode_bind_ok (Decoder.decode_byte hlength),
    Takes.byte.decode_bind_ok (Decoder.decode_byte hext), (Takes.dual32 policy).decode_bind_drop]
  apply congrArg
  funext extent
  rw [(Takes.dual32 policy).decode_bind_drop]
  apply congrArg
  funext size
  rw [(Takes.field 7).decode_bind_ok (Decoder.decode_field (by omega)),
    Takes.byte.decode_bind_ok (Decoder.decode_byte hflags),
    Takes.byte.decode_bind_ok (Decoder.decode_byte hunit),
    Takes.byte.decode_bind_ok (Decoder.decode_byte hgap), (Takes.dual16 policy).decode_bind_drop]
  apply congrArg
  funext volumeSequenceNumber
  rw [Takes.byte.decode_bind_ok (Decoder.decode_byte hname),
    (Takes.bytes _).decode_bind_ok (Decoder.decode_bytes_slice hend),
    (Takes.skip _).decode_bind_ok rfl, Bytes.length_slice hend]
  rfl

/-- As far as the lengths have been checked, all places are there, and what they make is what the decoder
gives of the bytes up to the end of the record. -/
theorem partsInPlace?_eq {length nameLength : UInt8} (hlength : data[0]? = some length)
    (hname : data[32]? = some nameLength) (hmin : minLength ≤ length.toNat)
    (hmax : length.toNat ≤ data.length) (hend : headLength + nameLength.toNat ≤ length.toNat) :
    partsInPlace? policy data length (headLength + nameLength.toNat) =
      some ((decoder policy).decode (data.take length.toNat)) := by
  have hmin : 34 ≤ length.toNat := hmin
  have hthere (index : Nat) (hindex : index < length.toNat) : ∃ b, data[index]? = some b :=
    ⟨data[index], List.getElem?_eq_getElem (by omega)⟩
  have hcut {index : Nat} {b : UInt8} (hindex : index < length.toNat) (h : data[index]? = some b) :
      (data.take length.toNat)[index]? = some b := by
    rw [List.getElem?_take_of_lt hindex, h]
  have hslice {start count : Nat} (h : start + count ≤ length.toNat) :
      Bytes.slice (data.take length.toNat) start count = data.slice start count :=
    Bytes.slice_take h
  obtain ⟨extAttrLength, hext⟩ := hthere 1 (by omega)
  obtain ⟨flags, hflags⟩ := hthere 25 (by omega)
  obtain ⟨fileUnitSize, hunit⟩ := hthere 26 (by omega)
  obtain ⟨interleaveGap, hgap⟩ := hthere 27 (by omega)
  rw [decode_decoder (hcut (by omega) hlength) (hcut (by omega) hext) (hcut (by omega) hflags)
    (hcut (by omega) hunit) (hcut (by omega) hgap) (hcut (by omega) hname)
    (by rwa [List.length_take_of_le hmax]), hslice (by omega), hslice (by omega),
    hslice (by omega), hslice (by omega), hslice hend, Bytes.drop_take_eq_slice, partsInPlace?,
    hext, hflags, hunit, hgap, Bytes.range?_eq_some (by omega) (by omega),
    Bytes.range?_eq_some (by omega) (by omega), Bytes.range?_eq_some (by omega) (by omega),
    Bytes.range?_eq_some (by omega) (by omega),
    Bytes.range?_eq_some (Nat.le_add_right ..) (by omega), Nat.add_sub_cancel_left,
    Bytes.range?_eq_some (Nat.min_le_right ..) hmax]
  rfl

/-- **Parsing asks for no byte that is not there.** Every part of a record is taken from its place in the
data, and all these places are inside of it. -/
theorem parseInPlace?_eq (policy : EndianPolicy) (data : Bytes) :
    parseInPlace? policy data = some (parse policy data) := by
  have hagree_iff := @lengthsAgree_iff data
  rw [parseInPlace?, parse]
  split
  · next hshort => rw [if_neg (by rw [hagree_iff]; omega)]
  next hshort =>
    have hthere {index : Nat} (hindex : index < 34) : data[index]? = some (data.getD index 0) := by
      unfold minLength at hshort
      rw [List.getD_eq_getElem?_getD, List.getElem?_eq_getElem (by omega), Option.getD_some]
    unfold lengthIn nameEndIn at hagree_iff
    rw [hthere (by decide), hthere (by decide)]
    show ite _ (some _) (ite _ (some _) _) = _
    split
    · rw [if_neg (by rw [hagree_iff]; omega)]
    split
    · rw [if_neg (by rw [hagree_iff]; omega)]
    · rw [if_pos (hagree_iff.mpr (by omega)),
        partsInPlace?_eq (hthere (by decide)) (hthere (by decide)) (by omega) (by omega) (by omega)]

end DirectoryRecord

end Ecma119
