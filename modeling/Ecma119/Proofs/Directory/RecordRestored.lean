import Ecma119.Proofs.Directory.Halves
import Ecma119.Proofs.Directory.RecordRoundTrip
import Ecma119.Proofs.Rewriting

/-!
# Directory records written again

The parts of a record that has been read strictly are the bytes from which it was read, up to the byte
behind its identifier. It can be written again unless it has the greatest length that a byte can tell,
and comes out as it was, but for its length, which becomes even, and its padding, which becomes zeros
(`Rewrites`). `round_trips` puts both directions together.
-/

namespace Ecma119.DirectoryRecord

variable {policy : EndianPolicy} {r : DirectoryRecord} {data data' bytes rest : Bytes}

/-! ## The lengths in a record -/

/-- How long the record at the front of `data` says that it is, which is in its first byte. -/
def lengthIn (data : Bytes) : Nat := (data.getD 0 0).toNat

/-- Where the identifier of the record at the front of `data` ends. -/
def nameEndIn (data : Bytes) : Nat := headLength + (data.getD 32 0).toNat

/-- The lengths in a record agree if there is an identifier, the record has room for it behind its head,
and ends no later than the data does. -/
theorem lengthsAgree_iff :
    lengthsAgree data = true ↔ minLength ≤ lengthIn data ∧ lengthIn data ≤ data.length ∧
      headLength < nameEndIn data ∧ nameEndIn data ≤ lengthIn data := by
  simp only [lengthsAgree, lengthIn, nameEndIn, Bool.and_eq_true, decide_eq_true_eq]
  omega

/-- What is read as a record is long enough, and its identifier is not empty: the check of lengths saw to
it. -/
theorem lengths_of_parse (h : parse policy data = .ok r) :
    minLength ≤ lengthIn data ∧ lengthIn data ≤ data.length ∧
      headLength < nameEndIn data ∧ nameEndIn data ≤ lengthIn data := by
  rw [parse] at h
  split at h
  · next hagree => exact lengthsAgree_iff.mp hagree
  · cases h

/-- Bytes that start with the same record are read the same, whatever follows it in either of them. -/
theorem parse_of_take_eq (h : parse policy data = .ok r)
    (hsame : data'.take (lengthIn data) = data.take (lengthIn data)) :
    parse policy data' = .ok r := by
  obtain ⟨hmin, hmax, hname, hend⟩ := lengths_of_parse h
  have hbyte {index : Nat} (hindex : index < lengthIn data) :
      data'.getD index 0 = data.getD index 0 := by
    rw [List.getD_eq_getElem?_getD, List.getD_eq_getElem?_getD,
      ← List.getElem?_take_of_lt hindex, hsame, List.getElem?_take_of_lt hindex]
  have hmin' : 34 ≤ lengthIn data := hmin
  have hlength : lengthIn data' = lengthIn data := by rw [lengthIn, hbyte (by omega), lengthIn]
  have hnameEnd : nameEndIn data' = nameEndIn data := by
    rw [nameEndIn, hbyte (by omega), nameEndIn]
  have hmax' : lengthIn data ≤ data'.length := by
    have hcut := congrArg List.length hsame
    rw [List.length_take, List.length_take_of_le hmax] at hcut
    omega
  have hagree' : lengthsAgree data' = true := by
    rw [lengthsAgree_iff, hlength, hnameEnd]
    exact ⟨hmin, hmax', hname, hend⟩
  rw [parse, if_pos (lengthsAgree_iff.mpr (lengths_of_parse h))] at h
  rw [parse, if_pos hagree']
  show (decoder policy).decode (data'.take (lengthIn data')) = _
  rw [hlength, hsame]
  exact h

/-! ## The parts of a record -/

/-- The parts between the length of the record and the byte behind its identifier. -/
def front (r : DirectoryRecord) : Bytes :=
  [r.extAttrLength] ++ dualBytes32 r.extent ++ dualBytes32 r.size ++ r.recordingTime.toList ++
    [r.flags.bits, r.fileUnitSize, r.interleaveGap] ++ dualBytes16 r.volumeSequenceNumber ++
    [UInt8.ofNat r.name.length] ++ r.name

/-- Behind its length a record has its front, a byte if the identifier ends at an odd place, and its
system use with a byte if that is odd. -/
theorem body_eq (r : DirectoryRecord) :
    r.body = r.front ++ Bytes.zeros ((headLength + r.name.length) % 2) ++ r.systemUse ++
      Bytes.zeros (r.systemUse.length % 2) := rfl

/-- The front has the bytes of the head and of the identifier, but for the length of the record, which
stands before it. -/
theorem length_front (r : DirectoryRecord) : r.front.length + 1 = headLength + r.name.length := by
  simp only [front, headLength, dualBytes32, dualBytes16, ByteOrder.bytes32, ByteOrder.bytes16,
    List.length_append, List.length_cons, List.length_nil, ByteOrder.length_bytes,
    Vector.length_toList]
  omega

theorem getElem?_front_nameLength (r : DirectoryRecord) :
    r.front[31]? = some (UInt8.ofNat r.name.length) := by
  simp [front, List.getElem?_append, dualBytes32, dualBytes16, ByteOrder.bytes32, ByteOrder.bytes16]

/-- What is read strictly are the parts of the bytes, in their order, so that nothing between them is
lost. -/
theorem parts_of_decoder (h : decoder .strict data = .ok (r, rest)) :
    r.length :: r.front = data.take (headLength + r.name.length) ∧
      r.systemUse = data.drop (headLength + r.name.length + (headLength + r.name.length) % 2) := by
  have hrun : decoder .strict (data.drop 0) = .ok (r, rest) := h
  have hfront : [] = data.take 0 := rfl
  obtain ⟨length, hfront, hrun⟩ := Decoder.Inverts.byte.of_bind hfront rfl hrun
  obtain ⟨extAttrLength, hfront, hrun⟩ := Decoder.Inverts.byte.of_bind hfront rfl hrun
  obtain ⟨extent, hfront, hrun⟩ := Decoder.Inverts.dual32.of_bind hfront rfl hrun
  obtain ⟨size, hfront, hrun⟩ := Decoder.Inverts.dual32.of_bind hfront rfl hrun
  obtain ⟨recordingTime, hfront, hrun⟩ := (Decoder.Inverts.field 7).of_bind hfront rfl hrun
  obtain ⟨flags, hfront, hrun⟩ := Decoder.Inverts.byte.of_bind hfront rfl hrun
  obtain ⟨fileUnitSize, hfront, hrun⟩ := Decoder.Inverts.byte.of_bind hfront rfl hrun
  obtain ⟨interleaveGap, hfront, hrun⟩ := Decoder.Inverts.byte.of_bind hfront rfl hrun
  obtain ⟨volumeSequenceNumber, hfront, hrun⟩ := Decoder.Inverts.dual16.of_bind hfront rfl hrun
  obtain ⟨nameLength, hfront, hrun⟩ := Decoder.Inverts.byte.of_bind hfront rfl hrun
  obtain ⟨name, hlength, hfront, hrun⟩ := Decoder.of_bytes_bind hfront rfl hrun
  obtain ⟨⟨⟩, behind, hskip, hrun⟩ := Decoder.bind_eq_ok hrun
  have hbehind := (Decoder.Takes.skip _).rest_eq hskip
  cases hrun
  have hbyte : UInt8.ofNat name.length = nameLength := by rw [hlength, UInt8.ofNat_toNat]
  rw [List.drop_drop, ← hlength] at hbehind
  refine ⟨?_, hbehind⟩
  rw [← hlength] at hfront
  simpa [front, headLength, hbyte] using hfront

/-- What a record that has been read strictly tells of the bytes it was read from. -/
structure PartsOf (data : Bytes) (r : DirectoryRecord) : Prop where
  minLength_le : minLength ≤ r.length.toNat
  length_le : r.length.toNat ≤ data.length
  name_ne_nil : r.name ≠ []
  nameEnd_le : headLength + r.name.length ≤ r.length.toNat
  front_eq : r.length :: r.front = data.take (headLength + r.name.length)
  systemUse_eq : r.systemUse =
    (data.take r.length.toNat).drop (headLength + r.name.length + (headLength + r.name.length) % 2)

/-- A record that the strict policy accepts consists of the parts that its fields are read from. -/
theorem partsOf_of_parse (h : parse .strict data = .ok r) : PartsOf data r := by
  have hlength := length_of_parse h
  rw [parse, ← hlength] at h
  split at h
  case isFalse => cases h
  next hagree =>
    simp only [lengthsAgree, ← hlength, Bool.and_eq_true, decide_eq_true_eq] at hagree
    obtain ⟨⟨⟨hmin, hmax⟩, hname⟩, -⟩ := hagree
    obtain ⟨rest, hrun⟩ := Decoder.decode_eq_ok.mp h
    obtain ⟨hfront, hsystem⟩ := parts_of_decoder hrun
    have hsize := congrArg List.length hfront
    rw [List.length_cons, length_front, List.length_take, List.length_take_of_le hmax] at hsize
    rw [List.take_take, Nat.min_eq_left (by omega)] at hfront
    refine ⟨hmin, hmax, fun hnil => hname ?_, by omega, hfront, hsystem⟩
    -- the byte before the identifier is among these bytes
    have hbyte : (r.length :: r.front)[32]? = data[32]? := by
      rw [hfront, List.getElem?_take_of_lt (by unfold headLength; omega)]
    rw [List.getD_eq_getElem?_getD, ← hbyte, List.getElem?_cons_succ, getElem?_front_nameLength,
      hnil]
    rfl

/-- The length that a record has when it is parsed is the one that its first byte tells. -/
theorem toNat_length_of_parse (h : parse policy data = .ok r) : r.length.toNat = lengthIn data := by
  rw [length_of_parse h, lengthIn]

/-- The identifier that is read of a record ends where the length in its head says. -/
theorem nameEnd_of_parse_strict (h : parse .strict data = .ok r) :
    headLength + r.name.length = nameEndIn data := by
  obtain ⟨-, -, -, hend, hfront, -⟩ := partsOf_of_parse h
  obtain ⟨-, -, hname, -⟩ := lengths_of_parse h
  have hlt := r.length.toNat_lt
  have hpos : 0 < r.name.length := List.length_pos_iff.mpr (partsOf_of_parse h).name_ne_nil
  have hbyte := getElem?_front_nameLength r
  rw [← List.getElem?_cons_succ (a := r.length), hfront] at hbyte
  unfold headLength at *
  rw [List.getElem?_take_of_lt (by omega)] at hbyte
  rw [nameEndIn, List.getD_eq_getElem?_getD, hbyte]
  show _ = headLength + (UInt8.ofNat r.name.length).toNat
  rw [UInt8.toNat_ofNat']
  unfold headLength
  omega

/-! ## Writing it again -/

/-- These bytes are the record at the front of `data` with an even length and with zeros for its
padding: the byte behind an identifier of even length, and the one that makes up for an odd length. -/
structure Rewrites (data bytes : Bytes) : Prop where
  length_eq : bytes.length = padEven (lengthIn data)
  lengthByte : bytes[0]? = some (UInt8.ofNat bytes.length)
  padding : nameEndIn data % 2 = 1 → bytes[nameEndIn data]? = some 0
  ended : lengthIn data % 2 = 1 → bytes[lengthIn data]? = some 0
  kept : ∀ index, 0 < index → index < lengthIn data →
    ¬ (nameEndIn data % 2 = 1 ∧ index = nameEndIn data) → bytes[index]? = data[index]?

/-- A record that has been read takes an even number of bytes when it is written, so one more if it was
odd. -/
theorem encodedLength_of_parse_strict (h : parse .strict data = .ok r) :
    r.encodedLength = padEven (lengthIn data) := by
  obtain ⟨-, hmax, -, hend, -, hsystem⟩ := partsOf_of_parse h
  rw [toNat_length_of_parse h] at hmax hend hsystem
  rw [encodedLength, sizeFor, hsystem, List.length_drop, List.length_take_of_le hmax]
  unfold padEven
  omega

/-- The bytes of a record that has been read strictly are those it was read from, but for its length
and its padding. -/
theorem rewrites_of_parse_strict (h : parse .strict data = .ok r) :
    Rewrites data (UInt8.ofNat r.encodedLength :: r.body) := by
  obtain ⟨-, hmax, -, hend, hfront, hsystem⟩ := partsOf_of_parse h
  have hlength : (UInt8.ofNat r.encodedLength :: r.body).length = r.encodedLength := length_body r
  have hfrontLength := length_front r
  rw [toNat_length_of_parse h] at hmax hend hsystem
  rw [nameEnd_of_parse_strict h] at hend hfront hsystem hfrontLength
  have hsystemLength := congrArg List.length hsystem
  rw [List.length_drop, List.length_take_of_le hmax] at hsystemLength
  -- up to the end of the identifier, and from there on
  have hbefore {index : Nat} (hpos : 0 < index) (hindex : index < nameEndIn data) :
      (UInt8.ofNat r.encodedLength :: r.body)[index]? = data[index]? := by
    obtain ⟨below, rfl⟩ := Nat.exists_eq_succ_of_ne_zero (Nat.ne_of_gt hpos)
    rw [List.getElem?_cons_succ, body_eq, List.append_assoc, List.append_assoc,
      List.getElem?_append_left (by omega), ← List.getElem?_cons_succ (a := r.length), hfront,
      List.getElem?_take_of_lt hindex]
  have hbehind (index : Nat) :
      (UInt8.ofNat r.encodedLength :: r.body)[nameEndIn data + index]? =
        (Bytes.zeros (nameEndIn data % 2) ++
          (r.systemUse ++ Bytes.zeros (r.systemUse.length % 2)))[index]? := by
    rw [← hfrontLength, Nat.add_right_comm, List.getElem?_cons_succ, body_eq, List.append_assoc,
      List.append_assoc, List.getElem?_append_right (Nat.le_add_right _ _),
      Nat.add_sub_cancel_left, nameEnd_of_parse_strict h, hfrontLength]
  refine ⟨hlength.trans (encodedLength_of_parse_strict h), by rw [hlength]; rfl, ?_, ?_, ?_⟩
  · intro hodd
    rw [← Nat.add_zero (nameEndIn data), hbehind, hodd]
    rfl
  · intro hodd
    have hsplit : lengthIn data = nameEndIn data + (lengthIn data - nameEndIn data) := by omega
    rw [hsplit, hbehind]
    by_cases hshort : lengthIn data = nameEndIn data
    -- the record ends with its identifier, so that both paddings are one
    · rw [hshort, Nat.sub_self, ← hshort, hodd]
      rfl
    · rw [List.getElem?_append_right (by rw [Bytes.length_zeros]; omega), Bytes.length_zeros,
        List.getElem?_append_right (by omega), Bytes.zeros, List.getElem?_replicate,
        if_pos (by omega)]
  · intro index hpos hindex hother
    by_cases hname : index < nameEndIn data
    · exact hbefore hpos hname
    · have hsplit : index = nameEndIn data + (index - nameEndIn data) := by omega
      rw [hsplit, hbehind, List.getElem?_append_right (by rw [Bytes.length_zeros]; omega),
        Bytes.length_zeros, List.getElem?_append_left (by omega), hsystem, List.getElem?_drop,
        List.getElem?_take_of_lt (by omega)]
      congr 1
      omega

/-- A record that has been read can be written, unless its even length is more than a byte can tell. -/
theorem encode_of_parse_strict (h : parse .strict data = .ok r) :
    (lengthIn data = 255 → r.encode = .error (.fieldOverflow 256 255)) ∧
      (lengthIn data ≠ 255 → ∃ bytes, r.encode = .ok bytes ∧ Rewrites data bytes) := by
  have hname := (partsOf_of_parse h).name_ne_nil
  have hencoded := encodedLength_of_parse_strict h
  have hlt : lengthIn data < 256 := UInt8.toNat_lt _
  unfold padEven at hencoded
  refine ⟨fun hlong => ?_, fun hlong => ?_⟩
  · rw [hlong] at hencoded
    rw [encode, if_pos (.inl (by omega)), hencoded]
  · have hfit : ¬ (255 < r.encodedLength ∨ r.name = []) := not_or.mpr ⟨by omega, hname⟩
    exact ⟨_, by rw [encode, if_neg hfit], rewrites_of_parse_strict h⟩

/-- Where nothing is odd and nothing follows, the bytes are the same that were read. -/
theorem Rewrites.eq_of_even (h : Rewrites data bytes) (hlength : lengthIn data = data.length)
    (heven : lengthIn data % 2 = 0) (hname : nameEndIn data % 2 = 0) : bytes = data := by
  have hsame : bytes.length = data.length := by
    rw [h.length_eq, ← hlength, padEven, heven, Nat.add_zero]
  apply List.ext_getElem?
  intro index
  by_cases hinside : index < lengthIn data
  · by_cases hpos : 0 < index
    · exact h.kept index hpos hinside (by omega)
    · obtain rfl : index = 0 := by omega
      rw [h.lengthByte, hsame, ← hlength, lengthIn, UInt8.ofNat_toNat, List.getD_eq_getElem?_getD,
        List.getElem?_eq_getElem (by omega)]
      rfl
  · rw [List.getElem?_eq_none (by omega), List.getElem?_eq_none (by omega)]

/-- A record of the shortest length is written as it was read: it has one byte of name and nothing behind
it. -/
theorem encode_of_length_eq_minLength (h : parse .strict data = .ok r)
    (hlength : data.length = minLength) : r.encode = .ok data ∧ r.length = 34 := by
  obtain ⟨hmin, hmax, hname, hend⟩ := lengths_of_parse h
  unfold headLength minLength at *
  have hthis : lengthIn data = 34 := by omega
  obtain ⟨bytes, hencode, hrewrites⟩ := (encode_of_parse_strict h).2 (by omega)
  rw [hencode, hrewrites.eq_of_even (by omega) (by omega) (by omega)]
  exact ⟨rfl, UInt8.toNat_inj.mp ((toNat_length_of_parse h).trans hthis)⟩

/-- A record can be written if it has an identifier and a length that a byte can tell. -/
theorem exists_encode_iff :
    (∃ bytes, r.encode = .ok bytes) ↔ r.name ≠ [] ∧ r.encodedLength ≤ 255 := by
  constructor
  · rintro ⟨bytes, h⟩
    obtain ⟨hmax, hname, -⟩ := encode_eq_ok h
    exact ⟨hname, hmax⟩
  · rintro ⟨hname, hmax⟩
    exact ⟨_, by rw [encode, if_neg (not_or.mpr ⟨Nat.not_lt.mpr hmax, hname⟩)]⟩

/-- **Directory records go to bytes and back, and from bytes and back.** A record is written if it has an
identifier and its length fits into a byte. It takes as many bytes as it says, an even number, and is read
back from them under either policy and whatever follows. A record that has been read strictly is told by
the bytes of its length alone; it is written as it was but for its length and its padding, unless it has
255 bytes. -/
theorem round_trips :
    (∀ r : DirectoryRecord,
      ((∃ bytes, r.encode = .ok bytes) ↔ r.name ≠ [] ∧ r.encodedLength ≤ 255) ∧
      ∀ bytes, r.encode = .ok bytes →
        bytes.length = r.encodedLength ∧ bytes.length % 2 = 0 ∧
          ∀ policy rest, parse policy (bytes ++ rest) = .ok r.recorded) ∧
    ∀ (data : Bytes) (r : DirectoryRecord), parse .strict data = .ok r →
      (∀ policy data', data'.take (lengthIn data) = data.take (lengthIn data) →
        parse policy data' = .ok r) ∧
      (lengthIn data = 255 → r.encode = .error (.fieldOverflow 256 255)) ∧
      (lengthIn data ≠ 255 → ∃ bytes, r.encode = .ok bytes ∧ Rewrites data bytes) := by
  refine ⟨fun r => ⟨exists_encode_iff, fun bytes h => ?_⟩, fun data r h => ⟨?_, ?_⟩⟩
  · have hlength := length_of_encode h
    refine ⟨hlength, ?_, fun policy rest => parse_encode policy h rest⟩
    rw [hlength]
    exact padEven_mod_two _
  · intro policy data' hsame
    have hstrict := parse_of_take_eq h hsame
    cases policy with
    | strict => exact hstrict
    | lenient => exact reconciles_parse.ok_of_strict hstrict
  · exact encode_of_parse_strict h

/-- A record of 37 bytes, with a byte that is not zero behind its identifier, is written as 38 bytes. -/
theorem round_trips_oddLength :
    let r := { DirectoryRecord.ofExtent [0x41, 0x42] 20 3 ⟨0⟩ with length := 37, systemUse := [7] }
    let data := r.length :: r.front ++ [0xFF, 7]
    parse .strict data = .ok r ∧ ∃ bytes, r.encode = .ok bytes ∧ bytes.length = 38 ∧
      bytes[35]? = some 0 ∧ bytes[36]? = some 7 ∧ bytes[37]? = some 0 := by
  intro r data
  have hparse : parse .strict data = .ok r := eq_ok_of_toOption (by decide +kernel)
  have hlength : lengthIn data = 37 := by decide +kernel
  have hname : nameEndIn data = 35 := by decide +kernel
  obtain ⟨bytes, hencode, hrewrites⟩ := (round_trips.2 data r hparse).2.2 (by rw [hlength]; decide)
  obtain ⟨hsize, -, hpadding, hended, hkept⟩ := hrewrites
  rw [hlength, hname] at *
  exact ⟨hparse, bytes, hencode, hsize, hpadding rfl,
    (hkept 36 (by decide) (by decide) (by decide)).trans (by decide +kernel), hended rfl⟩

end Ecma119.DirectoryRecord
