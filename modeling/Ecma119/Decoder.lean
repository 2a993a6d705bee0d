import Ecma119.Bytes
import Ecma119.Error

/-!
# Decoders

A decoder takes what it needs off the front of a byte string. A record is decoded by naming its
parts in the order in which they are recorded; bytes that are missing are `truncatedRecord`.
-/

namespace Ecma119

/-- Reads a value off the front of the bytes and leaves the rest. -/
abbrev Decoder := StateT Bytes (Except FormatError)

namespace Decoder

/-- The value at the front of `bytes`; what follows it is ignored. -/
def decode {α : Type} (d : Decoder α) (bytes : Bytes) : Except FormatError α :=
  (d.run bytes).map Prod.fst

def byte : Decoder UInt8 := fun
  | b :: rest => .ok (b, rest)
  | [] => .error .truncatedRecord

def field (n : Nat) : Decoder (Field n) := fun input =>
  let bytes := input.take n
  if h : bytes.length = n then .ok (⟨bytes.toArray, by simpa using h⟩, input.drop n)
  else .error .truncatedRecord

/-- `n` bytes, for a length that the record itself gives. If fewer are left, the record is taken to be
cut off. -/
def bytes (n : Nat) : Decoder Bytes := do
  return (← field n).toList

/-- All that is left. -/
def rest : Decoder Bytes := fun input => .ok (input, [])

/-- Passes over up to `n` bytes that carry nothing. Where fewer are left that is no fault, as nothing is
lost by it. -/
def skip (n : Nat) : Decoder Unit := fun input => .ok ((), input.drop n)

def require (condition : Bool) (cause : FormatError) : Decoder Unit :=
  if condition then pure () else throw cause

/-- A field is read back from its own bytes, whatever follows them, which is left for the next part. -/
theorem field_append {n : Nat} (f : Field n) (tail : Bytes) :
    field n (f.toList ++ tail) = .ok (f, tail) := by
  have htake : (f.toList ++ tail).take n = f.toList := by simp
  have hdrop : (f.toList ++ tail).drop n = tail := by simp
  simp only [field, htake, hdrop, Vector.length_toList, ↓reduceDIte]
  rfl

end Decoder

end Ecma119
