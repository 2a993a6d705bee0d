/-!
# Byte strings and fields of fixed width

Recorded data is a list of bytes. A field whose width the standard fixes is a `Field`, which carries
its width in its type; `Field.ofBytes` cuts or zero-fills any byte string to it.
-/

namespace Ecma119

/-- A string of bytes. -/
abbrev Bytes := List UInt8

namespace Bytes

def zeros (n : Nat) : Bytes := List.replicate n 0

/-- The bytes of the text `s`, whose characters are all below 256. -/
def ofAscii (s : String) : Bytes := s.toList.map Char.toUInt8

/-- Up to `len` bytes from `offset` on: fewer of them, or none, where the data ends before. -/
def slice (data : Bytes) (offset len : Nat) : Bytes := (data.drop offset).take len

/-- Writes `bytes` over the bytes of `data` from `offset` on. The length stays the same only where there
is room for all of them. -/
def put (data : Bytes) (offset : Nat) (bytes : Bytes) : Bytes :=
  data.take offset ++ bytes ++ data.drop (offset + bytes.length)

/-- Exactly `n` bytes: the first `n`, or all of them and then `fill`. -/
def fit (n : Nat) (fill : UInt8) (bytes : Bytes) : Bytes :=
  bytes.take n ++ List.replicate (n - bytes.length) fill

@[simp] theorem length_zeros (n : Nat) : (zeros n).length = n := by
  simp [zeros]

/-- Bytes that are fitted to a width have that width, whether they were cut off or filled up. -/
@[simp] theorem length_fit (n : Nat) (fill : UInt8) (bytes : Bytes) :
    (fit n fill bytes).length = n := by
  simp [fit]
  omega

/-- Writing bytes that fit inside the data keeps its length; past the end it would make the data longer.
-/
theorem length_put {data bytes : Bytes} {offset : Nat} (h : offset + bytes.length ≤ data.length) :
    (put data offset bytes).length = data.length := by
  simp [put]
  omega

end Bytes

/-- A field of `n` bytes. -/
abbrev Field (n : Nat) := Vector UInt8 n

namespace Field

/-- The field that holds these bytes, cut or filled up with `fill` to the field's width. -/
def ofBytes (n : Nat) (bytes : Bytes) (fill : UInt8) : Field n :=
  ⟨(Bytes.fit n fill bytes).toArray, by simp⟩

def filled (n : Nat) (fill : UInt8) : Field n := Vector.replicate n fill

/-- Bytes of the right number fill the field exactly, so that `fill` does not occur in it. -/
theorem toList_ofBytes {n : Nat} {bytes : Bytes} (h : bytes.length = n) (fill : UInt8) :
    (ofBytes n bytes fill).toList = bytes := by
  simp [ofBytes, Bytes.fit, ← h]

end Field

end Ecma119
