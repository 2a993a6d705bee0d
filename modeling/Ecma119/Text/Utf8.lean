import Ecma119.Bytes

/-!
# UTF-8

Identifiers and Rock Ridge names are bytes that should be UTF-8 but need not be. `decodeLossy` gives
their text with one replacement character for every ill-formed sequence, where a sequence is the
longest start of a character that the bytes have there, and at least one byte. `decode?` refuses
ill-formed bytes and tells how many bytes before them are well formed.
-/

namespace Ecma119.Utf8

def encode (s : String) : Bytes := s.toList.flatMap String.utf8EncodeChar

/-- What the first byte of a character of several bytes announces: how many continuation bytes
follow, and the range of the first of them. The ranges leave out overlong forms, surrogates and
values above the last code point. -/
def lead? (b : UInt8) : Option (Nat × UInt8 × UInt8) :=
  if 0xC2 ≤ b ∧ b ≤ 0xDF then some (1, 0x80, 0xBF)
  else if b = 0xE0 then some (2, 0xA0, 0xBF)
  else if b = 0xED then some (2, 0x80, 0x9F)
  else if 0xE1 ≤ b ∧ b ≤ 0xEF then some (2, 0x80, 0xBF)
  else if b = 0xF0 then some (3, 0x90, 0xBF)
  else if b = 0xF4 then some (3, 0x80, 0x8F)
  else if 0xF1 ≤ b ∧ b ≤ 0xF3 then some (3, 0x80, 0xBF)
  else none

/-- Takes `count` continuation bytes, the first of them from `lo` to `hi`, and adds six bits for
each to `value`. The second part is the number of bytes taken, also where a byte is missing. -/
def continuation : (count : Nat) → (lo hi : UInt8) → (value : Nat) → Bytes → Option Nat × Nat
  | 0, _, _, value, _ => (some value, 0)
  | _ + 1, _, _, _, [] => (none, 0)
  | count + 1, lo, hi, value, b :: rest =>
    if lo ≤ b ∧ b ≤ hi then
      let (result, taken) := continuation count 0x80 0xBF (value * 64 + b.toNat % 64) rest
      (result, taken + 1)
    else (none, 0)

/-- Reads the character that starts with `b`. The second part is the number of bytes of `rest` that
belong to it, or to the ill-formed sequence that stands in its place. -/
def readChar (b : UInt8) (rest : Bytes) : Option Char × Nat :=
  if b < 0x80 then (some (Char.ofNat b.toNat), 0)
  else
    match lead? b with
    | none => (none, 0)
    | some (count, lo, hi) =>
      let (value, taken) := continuation count lo hi (b.toNat % (64 >>> count)) rest
      (value.map Char.ofNat, taken)

/-- The text of `bytes`, with a replacement character for every ill-formed sequence. -/
def decodeChars : Bytes → List Char
  | [] => []
  | b :: rest =>
    let read := readChar b rest
    read.1.getD '\uFFFD' :: decodeChars (rest.drop read.2)
termination_by bytes => bytes.length
decreasing_by
  simp only [List.length_drop, List.length_cons]
  omega

/-- The text of `bytes`, with a replacement character for every ill-formed sequence. -/
def decodeLossy (bytes : Bytes) : String := String.ofList (decodeChars bytes)

/-- The characters of well-formed bytes; otherwise the number of bytes before the first ill-formed
sequence. -/
def decodeCharsStrict : Bytes → Except Nat (List Char)
  | [] => .ok []
  | b :: rest =>
    let read := readChar b rest
    match read.1 with
    | none => .error 0
    | some c =>
      match decodeCharsStrict (rest.drop read.2) with
      | .ok cs => .ok (c :: cs)
      | .error validBytes => .error (validBytes + read.2 + 1)
termination_by bytes => bytes.length
decreasing_by
  simp only [List.length_drop, List.length_cons]
  omega

/-- The text of well-formed bytes; otherwise the number of bytes before the first ill-formed
sequence. -/
def decode? (bytes : Bytes) : Except Nat String := (decodeCharsStrict bytes).map String.ofList

end Ecma119.Utf8
