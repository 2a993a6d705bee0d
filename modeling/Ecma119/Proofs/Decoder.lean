import Ecma119.Numeric
import Mathlib.Algebra.GroupWithZero.Nat

/-!
# Decoding what has been encoded

One lemma for each part that a record can have: a decoder that stands before the bytes of a value
gives the value and stands behind them. `Decoder.bind_eq` strings them together, part by part.
-/

namespace Ecma119

/-- The value of some base-256 digits is what so many digits can hold: whatever is more is cut off. -/
theorem littleValue_littleBytes (width value : Nat) :
    littleValue (littleBytes width value) = value % 256 ^ width := by
  induction width generalizing value with
  | zero => simp [littleBytes, littleValue, Nat.mod_one]
  | succ width ih =>
    have hbyte : (UInt8.ofNat value).toNat = value % 256 := UInt8.toNat_ofNat'
    rw [littleBytes, littleValue, ih, hbyte, Nat.pow_succ', Nat.mod_mul]

/-- A recorded value reads back, up to the bits its width does not hold, in the order it was recorded in.
-/
theorem ByteOrder.value_bytes (order : ByteOrder) (width value : Nat) :
    order.value (order.bytes width value) = value % 256 ^ width := by
  cases order <;> simp [ByteOrder.value, ByteOrder.bytes, littleValue_littleBytes]

/-- Equal halves agree under every policy, so that what is written by this project is read by any reader.
-/
theorem EndianPolicy.reconcile_self (policy : EndianPolicy) (value : UInt32) :
    policy.reconcile value value = .ok value := by
  simp [EndianPolicy.reconcile]

namespace Decoder

/-- What comes next starts where the part before it stopped, so that a format is decoded part by part. -/
theorem bind_eq {α β : Type} {part : Decoder α} {next : α → Decoder β} {input rest : Bytes} {a : α}
    (h : part input = .ok (a, rest)) : (part >>= next) input = next a rest := by
  show (part input >>= fun p => next p.1 p.2) = _
  rw [h]
  rfl

/-- A part that fails is the end: nothing behind it is decoded, and its cause is the one that is
reported. -/
theorem bind_error {α β : Type} {part : Decoder α} {next : α → Decoder β} {input : Bytes}
    {cause : FormatError} (h : part input = .error cause) :
    (part >>= next) input = .error cause := by
  show (part input >>= fun p => next p.1 p.2) = _
  rw [h]
  rfl

theorem byte_cons (b : UInt8) (tail : Bytes) : byte (b :: tail) = .ok (b, tail) := rfl

theorem rest_eq (input : Bytes) : rest input = .ok (input, []) := rfl

/-- A result that is at hand is handed on, and no byte of the input is taken for it. -/
theorem liftM_eq {α : Type} {result : Except FormatError α} {a : α} (h : result = .ok a)
    (input : Bytes) : (liftM result : Decoder α) input = .ok (a, input) := by
  rw [h]
  rfl

/-- Skipping leaves what is behind the bytes that are skipped, whatever these are. -/
theorem skip_append {n : Nat} {data : Bytes} (h : data.length = n) (tail : Bytes) :
    skip n (data ++ tail) = .ok ((), tail) := by
  rw [skip, List.drop_left' h]

/-- Bytes of the right number are those of a field. -/
private theorem exists_field {n : Nat} {data : Bytes} (h : data.length = n) :
    ∃ f : Field n, f.toList = data :=
  ⟨Field.ofBytes n data 0, Field.toList_ofBytes h 0⟩

/-- Bytes in front of others are read as they are. -/
theorem bytes_append {n : Nat} {data : Bytes} (h : data.length = n) (tail : Bytes) :
    bytes n (data ++ tail) = .ok (data, tail) := by
  obtain ⟨f, rfl⟩ := exists_field h
  rw [bytes, bind_eq (field_append f tail)]
  rfl

/-- A number of two bytes is read back from the bytes that it is written as, in the same order. -/
theorem u16_append (order : ByteOrder) (value : UInt16) (tail : Bytes) :
    u16 order (order.bytes16 value ++ tail) = .ok (value, tail) := by
  obtain ⟨f, hf⟩ := exists_field (ByteOrder.length_bytes order 2 value.toNat)
  have hlt : value.toNat < 256 ^ 2 := value.toNat_lt
  rw [ByteOrder.bytes16, ← hf, u16, bind_eq (field_append f tail), hf, ByteOrder.value_bytes,
    Nat.mod_eq_of_lt hlt, UInt16.ofNat_toNat]
  rfl

/-- A number of four bytes is read back from the bytes that it is written as, in the same order. -/
theorem u32_append (order : ByteOrder) (value : UInt32) (tail : Bytes) :
    u32 order (order.bytes32 value ++ tail) = .ok (value, tail) := by
  obtain ⟨f, hf⟩ := exists_field (ByteOrder.length_bytes order 4 value.toNat)
  have hlt : value.toNat < 256 ^ 4 := value.toNat_lt
  rw [ByteOrder.bytes32, ← hf, u32, bind_eq (field_append f tail), hf, ByteOrder.value_bytes,
    Nat.mod_eq_of_lt hlt, UInt32.ofNat_toNat]
  rfl

/-- A number of two bytes that is written in both orders is read back under either policy, as its halves
agree. -/
theorem dual16_append (policy : EndianPolicy) (value : UInt16) (tail : Bytes) :
    dual16 policy (dualBytes16 value ++ tail) = .ok (value, tail) := by
  rw [dualBytes16, List.append_assoc, dual16, bind_eq (u16_append ..), bind_eq (u16_append ..),
    EndianPolicy.reconcile_self]
  show Except.ok (value.toUInt32.toUInt16, tail) = _
  rw [UInt16.toUInt16_toUInt32]

/-- A number of four bytes that is written in both orders is read back under either policy, as its halves
agree. -/
theorem dual32_append (policy : EndianPolicy) (value : UInt32) (tail : Bytes) :
    dual32 policy (dualBytes32 value ++ tail) = .ok (value, tail) := by
  rw [dualBytes32, List.append_assoc, dual32, bind_eq (u32_append ..), bind_eq (u32_append ..),
    EndianPolicy.reconcile_self]
  rfl

/-! ## What has been decoded -/

/-- What follows a value that is decoded does not matter to `decode`, which drops what is left. -/
theorem decode_eq_ok {α : Type} {d : Decoder α} {input : Bytes} {a : α} :
    d.decode input = .ok a ↔ ∃ rest, d input = .ok (a, rest) := by
  have hdecode : d.decode input = (d input).map Prod.fst := rfl
  rw [hdecode]
  cases d input with
  | error cause => exact ⟨fun h => (nomatch h), fun ⟨_, h⟩ => (nomatch h)⟩
  | ok result =>
    obtain ⟨b, rest⟩ := result
    constructor
    · intro h
      cases h
      exact ⟨rest, rfl⟩
    · rintro ⟨_, h⟩
      cases h
      rfl

/-- Where two parts have been decoded, the first was and the second went on behind it. -/
theorem bind_eq_ok {α β : Type} {part : Decoder α} {next : α → Decoder β} {input rest : Bytes}
    {b : β} (h : (part >>= next) input = .ok (b, rest)) :
    ∃ a between, part input = .ok (a, between) ∧ next a between = .ok (b, rest) := by
  cases hpart : part input with
  | ok p =>
    obtain ⟨a, between⟩ := p
    rw [bind_eq hpart] at h
    exact ⟨a, between, rfl, h⟩
  | error cause =>
    rw [bind_error hpart] at h
    cases h

/-- Two decoders in a row succeed exactly if the first does and the second does on what the first has
left. -/
theorem bind_eq_ok_iff {α β : Type} {part : Decoder α} {next : α → Decoder β} {input rest : Bytes}
    {b : β} : (part >>= next) input = .ok (b, rest) ↔
      ∃ a between, part input = .ok (a, between) ∧ next a between = .ok (b, rest) := by
  refine ⟨bind_eq_ok, ?_⟩
  rintro ⟨a, between, hpart, hnext⟩
  exact (bind_eq hpart).trans hnext

theorem pure_eq_ok {α : Type} {input rest : Bytes} {a b : α} :
    (pure a : Decoder α) input = .ok (b, rest) ↔ a = b ∧ input = rest := by
  have hpure : (pure a : Decoder α) input = .ok (a, input) := rfl
  rw [hpure, Except.ok.injEq, Prod.mk.injEq]

/-- A field takes its bytes off the front, if they are there, and the bytes behind them are left. -/
theorem field_eq_ok {n : Nat} {f : Field n} {input rest : Bytes} :
    field n input = .ok (f, rest) ↔
      n ≤ input.length ∧ f.toList = input.take n ∧ rest = input.drop n := by
  constructor
  · intro h
    rw [field] at h
    split at h
    · next hlength =>
      cases h
      rw [List.length_take] at hlength
      exact ⟨by omega, rfl, rfl⟩
    · cases h
  · rintro ⟨-, hf, rfl⟩
    have hinput : input = f.toList ++ input.drop n := by rw [hf, List.take_append_drop]
    rw [hinput]
    simpa using field_append f (input.drop n)

/-- A field is read exactly if there are as many bytes as it has, and those behind it are left. -/
theorem exists_field_eq_ok {n : Nat} {input rest : Bytes} :
    (∃ f, field n input = .ok (f, rest)) ↔ n ≤ input.length ∧ rest = input.drop n := by
  constructor
  · rintro ⟨f, h⟩
    exact ⟨(field_eq_ok.mp h).1, (field_eq_ok.mp h).2.2⟩
  · rintro ⟨hle, hrest⟩
    obtain ⟨f, hf⟩ := exists_field (List.length_take_of_le hle)
    exact ⟨f, field_eq_ok.mpr ⟨hle, hf, hrest⟩⟩

/-- Bytes are read exactly if there are as many, and then they are the first ones; those behind them are
left. -/
theorem bytes_eq_ok {n : Nat} {data input rest : Bytes} :
    bytes n input = .ok (data, rest) ↔
      n ≤ input.length ∧ data = input.take n ∧ rest = input.drop n := by
  constructor
  · intro h
    obtain ⟨f, between, hfield, hdone⟩ := bind_eq_ok h
    cases hdone
    exact field_eq_ok.mp hfield
  · rintro ⟨hle, rfl, rfl⟩
    obtain ⟨f, hf⟩ := exists_field (List.length_take_of_le hle)
    rw [bytes, bind_eq (field_eq_ok.mpr ⟨hle, hf, rfl⟩), hf]
    rfl

/-- Bytes are taken exactly if the input is these bytes and some others, which are then left. -/
theorem bytes_eq_ok_iff_append {n : Nat} {data input rest : Bytes} :
    bytes n input = .ok (data, rest) ↔ data.length = n ∧ input = data ++ rest := by
  constructor
  · intro h
    obtain ⟨hle, rfl, rfl⟩ := bytes_eq_ok.mp h
    exact ⟨List.length_take_of_le hle, (List.take_append_drop n input).symm⟩
  · rintro ⟨hlength, rfl⟩
    exact bytes_append hlength rest

/-- A condition that is required reads nothing: it succeeds if it holds, and all of the input is left. -/
theorem require_eq_ok {condition : Bool} {cause : FormatError} {input rest : Bytes} :
    require condition cause input = .ok ((), rest) ↔ condition = true ∧ rest = input := by
  cases condition with
  | true => exact ⟨fun h => by cases h; exact ⟨rfl, rfl⟩, fun h => by rw [h.2]; rfl⟩
  | false => exact ⟨fun h => (nomatch h), fun h => (nomatch h.1)⟩

theorem liftM_eq_ok {result : Except FormatError α} {input rest : Bytes} {a : α} :
    (liftM result : Decoder α) input = .ok (a, rest) ↔ result = .ok a ∧ rest = input := by
  cases result with
  | error cause => exact ⟨fun h => (nomatch h), fun h => (nomatch h.1)⟩
  | ok b =>
    constructor
    · intro h
      cases h
      exact ⟨rfl, rfl⟩
    · rintro ⟨h, rfl⟩
      cases h
      rfl

/-- A 16-bit number is any two bytes in either order: it is read wherever there are two of them. -/
theorem exists_u16_eq_ok {order : ByteOrder} {input rest : Bytes} :
    (∃ value, u16 order input = .ok (value, rest)) ↔ 2 ≤ input.length ∧ rest = input.drop 2 := by
  rw [← exists_field_eq_ok]
  constructor
  · rintro ⟨value, h⟩
    obtain ⟨f, between, hfield, hdone⟩ := bind_eq_ok h
    cases hdone
    exact ⟨f, hfield⟩
  · rintro ⟨f, hfield⟩
    exact ⟨_, bind_eq hfield⟩

theorem byte_eq_ok {b : UInt8} {input rest : Bytes} :
    byte input = .ok (b, rest) ↔ input = b :: rest := by
  cases input with
  | nil => exact ⟨fun h => (nomatch h), fun h => (nomatch h)⟩
  | cons first tail => simp [byte]

/-- A byte is read exactly if there is one, and those behind it are left. -/
theorem exists_byte_eq_ok {input rest : Bytes} :
    (∃ b, byte input = .ok (b, rest)) ↔ 1 ≤ input.length ∧ rest = input.drop 1 := by
  cases input with
  | nil => simp [byte]
  | cons b tail => simp [byte, eq_comm]

/-! ## What a decoder can give -/

/-- Whatever the decoder reads has a property. -/
def Gives {α : Type} (P : α → Prop) (d : Decoder α) : Prop :=
  ∀ input a rest, d input = .ok (a, rest) → P a

namespace Gives

variable {α β : Type} {P : α → Prop}

/-- What has been read has the property: a value that came of such a decoder is one that `P` holds of. -/
theorem of_ok {d : Decoder α} {input rest : Bytes} {a : α} (hrun : d input = .ok (a, rest))
    (h : Gives P d) : P a :=
  h input a rest hrun

theorem pure {a : α} (h : P a) : Gives P (pure a : Decoder α) := by
  intro input b rest hrun
  cases hrun
  exact h

/-- The last part decides: whatever was read before it, the value is one that `P` holds of. -/
theorem bind {part : Decoder β} {next : β → Decoder α} (h : ∀ b, Gives P (next b)) :
    Gives P (part >>= next) := by
  intro input a rest hrun
  obtain ⟨b, between, -, hnext⟩ := bind_eq_ok hrun
  exact h b between a rest hnext

end Gives

end Decoder

end Ecma119
