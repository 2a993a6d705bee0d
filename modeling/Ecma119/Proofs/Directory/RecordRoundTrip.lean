import Ecma119.Directory.Record
import Ecma119.Proofs.Decoder

/-!
# Directory records read back

A record that can be written is read back from its bytes under either policy, whatever follows them.
What comes back is `DirectoryRecord.recorded`: the length is the one that was written, and a system use
area of odd length has its padding byte. `StoredAs` is what the rest of the theory needs of the bytes
of a record, whoever wrote them.
-/

namespace Ecma119

namespace DirectoryRecord

/-- The record as it reads after it was written: with the length that was worked out, and with the byte
of padding as part of its system use area. -/
def recorded (r : DirectoryRecord) : DirectoryRecord :=
  { r with
    length := UInt8.ofNat r.encodedLength
    systemUse := r.systemUse ++ Bytes.zeros (r.systemUse.length % 2) }

variable {r : DirectoryRecord}

/-! ## The bytes of a record -/

/-- A record is written if its length fits into a byte and it has an identifier, and then it is its
length and its parts. -/
theorem encode_eq_ok {bytes : Bytes} (h : r.encode = .ok bytes) :
    r.encodedLength ≤ 255 ∧ r.name ≠ [] ∧ bytes = UInt8.ofNat r.encodedLength :: r.body := by
  unfold encode at h
  split at h
  · simp at h
  · next hfit =>
    rw [not_or] at hfit
    exact ⟨by omega, hfit.2, by simpa using h.symm⟩

theorem length_body (r : DirectoryRecord) : r.body.length + 1 = r.encodedLength := by
  simp only [body, encodedLength, sizeFor, padEven, headLength, dualBytes32, dualBytes16,
    ByteOrder.bytes32, ByteOrder.bytes16, List.length_append, List.length_cons, List.length_nil,
    ByteOrder.length_bytes, Bytes.length_zeros, Vector.length_toList]
  omega

/-- A record is written with as many bytes as `encodedLength` says. -/
theorem length_of_encode {bytes : Bytes} (h : r.encode = .ok bytes) :
    bytes.length = r.encodedLength := by
  obtain ⟨-, -, rfl⟩ := encode_eq_ok h
  rw [List.length_cons, length_body]

/-- The head and the identifier are part of the record, so that its length is enough for both. -/
theorem headLength_add_le (r : DirectoryRecord) : 33 + r.name.length ≤ r.encodedLength := by
  simp only [encodedLength, sizeFor, padEven, headLength]
  omega

/-- The byte before the identifier holds its length, at index 31 behind the length of the record. -/
theorem getElem?_body_nameLength (r : DirectoryRecord) :
    r.body[31]? = some (UInt8.ofNat r.name.length) := by
  simp [body, List.getElem?_append, dualBytes32, dualBytes16, ByteOrder.bytes32, ByteOrder.bytes16]

/-! ## Reading it back -/

private theorem toNat_ofNat_byte {n : Nat} (h : n ≤ 255) : (UInt8.ofNat n).toNat = n := by
  rw [UInt8.toNat_ofNat']
  omega

/-- What is written of a record is decoded to it under either policy, with its padding read as system
use. -/
theorem decoder_body (policy : EndianPolicy) (hname : r.name.length ≤ 255) (length : UInt8) :
    decoder policy (length :: r.body) =
      .ok ({ r with
        length
        systemUse := r.systemUse ++ Bytes.zeros (r.systemUse.length % 2) }, []) := by
  have hn := toNat_ofNat_byte hname
  simp only [body, List.append_assoc, List.cons_append, List.nil_append]
  rw [decoder, Decoder.bind_eq (Decoder.byte_cons ..), Decoder.bind_eq (Decoder.byte_cons ..),
    Decoder.bind_eq (Decoder.dual32_append ..), Decoder.bind_eq (Decoder.dual32_append ..),
    Decoder.bind_eq (Decoder.field_append ..), Decoder.bind_eq (Decoder.byte_cons ..),
    Decoder.bind_eq (Decoder.byte_cons ..), Decoder.bind_eq (Decoder.byte_cons ..),
    Decoder.bind_eq (Decoder.dual16_append ..), Decoder.bind_eq (Decoder.byte_cons ..),
    Decoder.bind_eq (Decoder.bytes_append hn.symm _),
    Decoder.bind_eq (Decoder.skip_append (Bytes.length_zeros _) _),
    Decoder.bind_eq (Decoder.rest_eq _)]
  rfl

/-- A record that was written passes the check of its lengths, whatever follows it. -/
theorem lengthsAgree_encode (hmax : r.encodedLength ≤ 255) (hname : r.name ≠ []) (tail : Bytes) :
    lengthsAgree (UInt8.ofNat r.encodedLength :: (r.body ++ tail)) = true := by
  have hbody := length_body r
  have hfit := headLength_add_le r
  have hpos : 0 < r.name.length := List.length_pos_iff.mpr hname
  have hhead : (UInt8.ofNat r.encodedLength :: (r.body ++ tail)).getD 0 0 =
      UInt8.ofNat r.encodedLength := rfl
  have hnameByte : (UInt8.ofNat r.encodedLength :: (r.body ++ tail)).getD 32 0 =
      UInt8.ofNat r.name.length := by
    rw [List.getD_eq_getElem?_getD, List.getElem?_cons_succ, List.getElem?_append_left (by omega),
      getElem?_body_nameLength]
    rfl
  simp only [lengthsAgree, hhead, hnameByte, toNat_ofNat_byte hmax,
    toNat_ofNat_byte (by omega : r.name.length ≤ 255), minLength, headLength, Bool.and_eq_true,
    decide_eq_true_eq, List.length_append, List.length_cons, ne_eq]
  omega

/-- A record that was written reads back, whatever follows it and whatever the policy. -/
theorem parse_encode (policy : EndianPolicy) {bytes : Bytes} (h : r.encode = .ok bytes)
    (tail : Bytes) : parse policy (bytes ++ tail) = .ok r.recorded := by
  obtain ⟨hmax, hname, rfl⟩ := encode_eq_ok h
  have hfit := headLength_add_le r
  have htake : (UInt8.ofNat r.encodedLength :: (r.body ++ tail)).take r.encodedLength =
      UInt8.ofNat r.encodedLength :: r.body := by
    rw [← length_body r]
    simp
  rw [List.cons_append, parse, if_pos (lengthsAgree_encode hmax hname tail)]
  show (decoder policy).decode (List.take (UInt8.ofNat r.encodedLength).toNat _) = _
  rw [toNat_ofNat_byte hmax, htake, Decoder.decode]
  show Except.map Prod.fst (decoder policy (UInt8.ofNat r.encodedLength :: r.body)) = _
  rw [decoder_body policy (by omega)]
  rfl

/-- A record that is read tells the length that its first byte gives, under either policy. -/
theorem length_of_parse {policy : EndianPolicy} {data : Bytes} (h : parse policy data = .ok r) :
    r.length = data.getD 0 0 := by
  rw [parse] at h
  split at h
  case isFalse => cases h
  next =>
    obtain ⟨rest, hrun⟩ := Decoder.decode_eq_ok.mp h
    obtain ⟨length, between, hbyte, hrun⟩ := Decoder.bind_eq_ok hrun
    have hfirst : r.length = length := by
      refine Decoder.Gives.of_ok (P := fun r => r.length = length) hrun ?_
      -- the parts behind the length do not touch it
      repeat refine .bind fun _ => ?_
      exact .pure rfl
    rw [Decoder.byte_eq_ok] at hbyte
    have hpos : 0 < (data.getD 0 0).toNat := by
      refine Nat.pos_of_ne_zero fun hzero => ?_
      rw [hzero, List.take_zero] at hbyte
      cases hbyte
    rw [hfirst, List.getD_eq_getElem?_getD, ← List.getElem?_take_of_lt hpos, hbyte]
    rfl

end DirectoryRecord

/-! ## Bytes that hold one record -/

structure StoredAs (policy : EndianPolicy) (bytes : Bytes) (r : DirectoryRecord) : Prop where
  /-- The first byte tells their number. -/
  lengthByte : (bytes.getD 0 0).toNat = bytes.length
  /-- They are read as that record. -/
  parsed : DirectoryRecord.parse policy bytes = .ok r

namespace StoredAs

variable {policy : EndianPolicy} {bytes : Bytes} {r : DirectoryRecord}

/-- A stored record has at least 34 bytes: 33 of the head and one of its name. -/
theorem minLength_le (h : StoredAs policy bytes r) : 34 ≤ bytes.length := by
  have hparsed := h.parsed
  unfold DirectoryRecord.parse at hparsed
  split at hparsed
  · next hagree =>
    simp only [DirectoryRecord.lengthsAgree, Bool.and_eq_true, decide_eq_true_eq] at hagree
    rw [← h.lengthByte]
    exact hagree.1.1.1
  · simp at hparsed

/-- A stored record has at most 255 bytes, the most that its first byte can tell. -/
theorem length_le (h : StoredAs policy bytes r) : bytes.length ≤ 255 := by
  rw [← h.lengthByte]
  have := (bytes.getD 0 0).toNat_lt
  omega

/-- The record tells their number too: its first byte is its length in bytes. -/
theorem length_eq (h : StoredAs policy bytes r) : r.length.toNat = bytes.length := by
  rw [DirectoryRecord.length_of_parse h.parsed, h.lengthByte]

/-- A walk that stands before the bytes sees that a record is there, and how long it is. -/
theorem exists_cons (h : StoredAs policy bytes r) :
    ∃ b tail, bytes = b :: tail ∧ b ≠ 0 ∧ b.toNat = tail.length + 1 := by
  have hmin := h.minLength_le
  obtain ⟨b, tail, rfl⟩ := List.exists_cons_of_length_pos (by omega : 0 < bytes.length)
  have hb : b.toNat = tail.length + 1 := h.lengthByte
  refine ⟨b, tail, rfl, ?_, hb⟩
  rintro rfl
  simp at hb

end StoredAs

/-- What is written for a record holds that record, under either policy. -/
theorem DirectoryRecord.storedAs_of_encode (policy : EndianPolicy) {r : DirectoryRecord}
    {bytes : Bytes} (h : r.encode = .ok bytes) : StoredAs policy bytes r.recorded where
  lengthByte := by
    rw [length_of_encode h]
    obtain ⟨hmax, -, rfl⟩ := encode_eq_ok h
    exact toNat_ofNat_byte hmax
  parsed := by simpa using parse_encode policy h []

end Ecma119
