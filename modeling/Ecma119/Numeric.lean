import Ecma119.Decoder

/-!
# Recorded numbers

A number is recorded with its least significant byte first, its most significant byte first, or
both ways one after the other. In the last form the halves have to agree; `EndianPolicy` tells what
becomes of a number whose halves do not.
-/

namespace Ecma119

/-- The order in which a number's bytes are recorded. -/
inductive ByteOrder where
  /-- Least significant byte first; the order of a type L path table. -/
  | little
  /-- Most significant byte first; the order of a type M path table. -/
  | big
deriving DecidableEq

/-- What to do when the halves of a both-byte-order number differ. -/
inductive EndianPolicy where
  /-- Refuse the number. -/
  | strict
  /-- Take the half that is recorded first. -/
  | lenient
deriving DecidableEq

/-! ## Bytes and values -/

/-- The value of bytes whose first is the least significant. No bytes at all have the value zero. -/
def littleValue : Bytes → Nat
  | [] => 0
  | b :: rest => b.toNat + 256 * littleValue rest

/-- The last `width` base-256 digits of a value, least significant first. -/
def littleBytes : (width : Nat) → (value : Nat) → Bytes
  | 0, _ => []
  | width + 1, value => UInt8.ofNat value :: littleBytes width (value / 256)

namespace ByteOrder

def value (order : ByteOrder) (bytes : Bytes) : Nat :=
  match order with
  | .little => littleValue bytes
  | .big => littleValue bytes.reverse

def bytes (order : ByteOrder) (width value : Nat) : Bytes :=
  match order with
  | .little => littleBytes width value
  | .big => (littleBytes width value).reverse

end ByteOrder

@[simp] theorem length_littleBytes (width value : Nat) :
    (littleBytes width value).length = width := by
  induction width generalizing value with
  | zero => rfl
  | succ width ih => simp [littleBytes, ih]

/-- Bytes are had back from their value: writing it with as many bytes as it was read from restores them.
-/
theorem littleBytes_littleValue (bytes : Bytes) :
    littleBytes bytes.length (littleValue bytes) = bytes := by
  induction bytes with
  | nil => rfl
  | cons b rest ih =>
    have hb : b.toNat < 256 := b.toNat_lt
    have hdiv : (b.toNat + 256 * littleValue rest) / 256 = littleValue rest := by omega
    simp only [List.length_cons, littleBytes, littleValue, hdiv, ih]
    congr 1
    apply UInt8.toNat_inj.1
    rw [UInt8.toNat_ofNat']
    omega

/-- A number takes as many bytes as its width says, in either order. -/
@[simp] theorem ByteOrder.length_bytes (order : ByteOrder) (width value : Nat) :
    (order.bytes width value).length = width := by
  cases order <;> simp [ByteOrder.bytes]

/-- Recording the value of some bytes gives these bytes again, in either order and with as many of them.
-/
theorem ByteOrder.bytes_value (order : ByteOrder) (bytes : Bytes) :
    order.bytes bytes.length (order.value bytes) = bytes := by
  cases order with
  | little => exact littleBytes_littleValue bytes
  | big =>
    have h := littleBytes_littleValue bytes.reverse
    rw [List.length_reverse] at h
    simp [ByteOrder.value, ByteOrder.bytes, h]

/-! ## Numbers of a fixed width -/

/-- The two bytes that record a number of 16 bits. -/
def ByteOrder.bytes16 (order : ByteOrder) (value : UInt16) : Bytes := order.bytes 2 value.toNat

def ByteOrder.bytes32 (order : ByteOrder) (value : UInt32) : Bytes := order.bytes 4 value.toNat

/-- Records a 16-bit number both ways, first with the least and then with the most significant byte in
front. -/
def dualBytes16 (value : UInt16) : Bytes :=
  ByteOrder.little.bytes16 value ++ ByteOrder.big.bytes16 value

/-- Records a 32-bit number both ways, first with the least and then with the most significant byte in
front. -/
def dualBytes32 (value : UInt32) : Bytes :=
  ByteOrder.little.bytes32 value ++ ByteOrder.big.bytes32 value

/-- The number behind two halves, which under the strict policy have to agree. -/
def EndianPolicy.reconcile (policy : EndianPolicy) (le be : UInt32) :
    Except FormatError UInt32 :=
  if le = be then .ok le
  else
    match policy with
    | .strict => .error (.endianMismatch le be)
    | .lenient => .ok le

namespace Decoder

/-- A byte that counts from -128 to 127. -/
def int8 : Decoder Int8 := do
  return (← byte).toInt8

def u16 (order : ByteOrder) : Decoder UInt16 := do
  return UInt16.ofNat (order.value (← field 2).toList)

def u32 (order : ByteOrder) : Decoder UInt32 := do
  return UInt32.ofNat (order.value (← field 4).toList)

/-- A 16-bit number that is recorded both ways. The halves are compared as numbers of 32 bits, which is
how a mismatch tells them. -/
def dual16 (policy : EndianPolicy) : Decoder UInt16 := do
  let le ← u16 .little
  let be ← u16 .big
  return (← policy.reconcile le.toUInt32 be.toUInt32).toUInt16

/-- A 32-bit number that is recorded both ways. What becomes of halves that differ is for the policy to
say. -/
def dual32 (policy : EndianPolicy) : Decoder UInt32 := do
  let le ← u32 .little
  let be ← u32 .big
  policy.reconcile le be

end Decoder

end Ecma119
