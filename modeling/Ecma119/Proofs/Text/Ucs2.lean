import Ecma119.Proofs.Decoder
import Ecma119.Proofs.Text.Ending
import Ecma119.Text.Ucs2

/-!
# Joliet text that is read back from its bytes

A character of the basic plane is one unit, which is no surrogate because no character is. Every
other character is a pair, of which the first unit lies in the range of high surrogates and the
second in that of low ones. So the units of a character are read as that character, whatever follows
them, and a text is read back from its bytes up to the padding at its end. Spaces of one byte are no
padding: two of them are one unit.
-/

namespace Ecma119.Ucs2

/-! ## Units -/

theorem toNat_ofNat_of_lt {n : Nat} (h : n < 0x10000) : (UInt16.ofNat n).toNat = n := by
  rw [UInt16.toNat_ofNat', Nat.mod_eq_of_lt h]

theorem isHighSurrogate_ofNat {n : Nat} (h : n < 0x10000) :
    isHighSurrogate (UInt16.ofNat n) = decide (0xD800 ≤ n ∧ n < 0xDC00) := by
  simp only [isHighSurrogate, UInt16.le_iff_toNat_le, UInt16.lt_iff_toNat_lt, toNat_ofNat_of_lt h]
  rfl

theorem isLowSurrogate_ofNat {n : Nat} (h : n < 0x10000) :
    isLowSurrogate (UInt16.ofNat n) = decide (0xDC00 ≤ n ∧ n < 0xE000) := by
  simp only [isLowSurrogate, UInt16.le_iff_toNat_le, UInt16.lt_iff_toNat_lt, toNat_ofNat_of_lt h]
  rfl

/-- A unit that is no surrogate is a character of its own, whatever follows it. -/
theorem charsOfUnits_single {u : UInt16} (hhigh : isHighSurrogate u = false)
    (hlow : isLowSurrogate u = false) (rest : List UInt16) :
    charsOfUnits (u :: rest) = Char.ofNat u.toNat :: charsOfUnits rest := by
  cases rest <;> simp [charsOfUnits, hhigh, hlow]

/-- A high surrogate and a low one are a character together, beyond those that one unit can tell. -/
theorem charsOfUnits_pair {u v : UInt16} (hhigh : isHighSurrogate u = true)
    (hlow : isLowSurrogate v = true) (rest : List UInt16) :
    charsOfUnits (u :: v :: rest) = pairChar u v :: charsOfUnits rest := by
  rw [charsOfUnits, if_pos hhigh, if_pos hlow]

/-- The units of a character, one or two, are read as that character, whatever follows them. -/
theorem charsOfUnits_unitsOfChar (c : Char) (rest : List UInt16) :
    charsOfUnits (unitsOfChar c ++ rest) = c :: charsOfUnits rest := by
  have hscalar : c.toNat < 0xD800 ∨ 0xDFFF < c.toNat ∧ c.toNat < 0x110000 := c.valid
  rw [unitsOfChar]
  split
  · next hplane =>
    have hhigh : isHighSurrogate (UInt16.ofNat c.toNat) = false := by
      rw [isHighSurrogate_ofNat hplane, decide_eq_false_iff_not]
      omega
    have hlow : isLowSurrogate (UInt16.ofNat c.toNat) = false := by
      rw [isLowSurrogate_ofNat hplane, decide_eq_false_iff_not]
      omega
    rw [List.singleton_append, charsOfUnits_single hhigh hlow, toNat_ofNat_of_lt hplane,
      Char.ofNat_toNat]
  · next hplane =>
    -- ten bits of the offset go into each half
    have hbits : (c.toNat - 0x10000) / 0x400 < 0x400 := by omega
    have hhigh : isHighSurrogate (UInt16.ofNat (0xD800 + (c.toNat - 0x10000) / 0x400)) = true := by
      rw [isHighSurrogate_ofNat (by omega), decide_eq_true_iff]
      omega
    have hlow : isLowSurrogate (UInt16.ofNat (0xDC00 + (c.toNat - 0x10000) % 0x400)) = true := by
      rw [isLowSurrogate_ofNat (by omega), decide_eq_true_iff]
      omega
    have hvalue : 0x10000 + (0xD800 + (c.toNat - 0x10000) / 0x400 - 0xD800) * 0x400 +
        (0xDC00 + (c.toNat - 0x10000) % 0x400 - 0xDC00) = c.toNat := by omega
    simp only [List.cons_append, List.nil_append]
    rw [charsOfUnits_pair hhigh hlow, pairChar, toNat_ofNat_of_lt (by omega),
      toNat_ofNat_of_lt (by omega), hvalue, Char.ofNat_toNat]

/-- The units of a text are read as its characters. The induction is on the characters. -/
theorem charsOfUnits_flatMap (chars : List Char) :
    charsOfUnits (chars.flatMap unitsOfChar) = chars := by
  induction chars with
  | nil => rfl
  | cons c chars ih => rw [List.flatMap_cons, charsOfUnits_unitsOfChar, ih]

/-! ## Bytes -/

/-- The bytes of units are read as these units. -/
theorem unitsOfBytes_flatMap (units : List UInt16) :
    unitsOfBytes (units.flatMap ByteOrder.big.bytes16) = units := by
  induction units with
  | nil => rfl
  | cons u units ih =>
    have hvalue : ByteOrder.big.value (ByteOrder.big.bytes16 u) = u.toNat := by
      have hlt : u.toNat < 256 ^ 2 := u.toNat_lt
      rw [ByteOrder.bytes16, ByteOrder.value_bytes, Nat.mod_eq_of_lt hlt]
    have hfirst : unitsOfBytes (ByteOrder.big.bytes16 u ++ units.flatMap ByteOrder.big.bytes16) =
        UInt16.ofNat (ByteOrder.big.value (ByteOrder.big.bytes16 u)) ::
          unitsOfBytes (units.flatMap ByteOrder.big.bytes16) := rfl
    rw [List.flatMap_cons, hfirst, hvalue, UInt16.ofNat_toNat, ih]

/-- A text is read back from its bytes without the padding at its end, surrogate pairs included. -/
theorem decode_encode (s : String) :
    decode (encode s) = String.ofList (dropTrailing isPadding s.toList) := by
  rw [decode, encode, unitsOfBytes_flatMap, charsOfUnits_flatMap]

/-- A text that does not end with padding is read back whole, whatever characters it has. -/
theorem decode_encode_of_unpadded {s : String}
    (h : ∀ c ∈ s.toList.getLast?, isPadding c = false) : decode (encode s) = s := by
  rw [decode_encode, dropTrailing_eq_self h, String.ofList_toList]

theorem length_flatMap_bytes16 (units : List UInt16) :
    (units.flatMap ByteOrder.big.bytes16).length = 2 * units.length := by
  induction units with
  | nil => rfl
  | cons u units ih =>
    rw [List.flatMap_cons, List.length_append, ih, ByteOrder.bytes16, ByteOrder.length_bytes,
      List.length_cons]
    omega

/-- Texts are encoded character by character, so that what is appended does not change what is before it.
-/
theorem encode_append (s t : String) : encode (s ++ t) = encode s ++ encode t := by
  rw [encode, String.toList_append, List.flatMap_append, List.flatMap_append]
  rfl

/-! ## Padding -/

def spaces (n : Nat) : Bytes := encode (String.ofList (List.replicate n ' '))

theorem spaces_add (m n : Nat) : spaces (m + n) = spaces m ++ spaces n := by
  rw [spaces, List.replicate_add, String.ofList_append, encode_append]
  rfl

theorem length_spaces (n : Nat) : (spaces n).length = 2 * n := by
  induction n with
  | zero => rfl
  | succ n ih =>
    rw [spaces_add, List.length_append, ih]
    rfl

/-- Spaces behind a text make no difference, so that a padded field reads like the text in it. -/
theorem decode_encode_spaces (s : String) (n : Nat) :
    decode (encode s ++ spaces n) = decode (encode s) := by
  have hpadding : ∀ c ∈ List.replicate n ' ', isPadding c = true := by
    intro c hc
    rw [List.eq_of_mem_replicate hc]
    rfl
  rw [spaces, ← encode_append, decode_encode, decode_encode, String.toList_append,
    String.toList_ofList, dropTrailing_append hpadding]

/-- A text that is written over the front of spaces has the other spaces behind it. -/
theorem put_spaces {s : String} {n : Nat} (h : (encode s).length ≤ 2 * n) :
    ∃ rest, Bytes.put (spaces n) 0 (encode s) = encode s ++ spaces rest := by
  have hlength : (encode s).length = 2 * (s.toList.flatMap unitsOfChar).length :=
    length_flatMap_bytes16 _
  obtain ⟨rest, rfl⟩ :=
    Nat.exists_eq_add_of_le (Nat.le_of_mul_le_mul_left (hlength ▸ h) Nat.two_pos)
  refine ⟨rest, ?_⟩
  rw [Bytes.put, List.take_zero, List.nil_append, Nat.zero_add, spaces_add, hlength,
    List.drop_left' (length_spaces _)]

/-! ## Spaces of one byte -/

/-- Two spaces of one byte are a unit; a last one that stands alone is dropped. -/
theorem unitsOfBytes_replicate (n : Nat) :
    unitsOfBytes (List.replicate n 0x20) = List.replicate (n / 2) 0x2020 := by
  match n with
  | 0 => rfl
  | 1 => rfl
  | n + 2 =>
    rw [List.replicate_succ, List.replicate_succ, unitsOfBytes, unitsOfBytes_replicate n,
      Nat.add_div_right n Nat.two_pos, List.replicate_succ]
    rfl

/-- Units of two spaces each, as a field of ASCII spaces has them, are read as daggers. -/
theorem charsOfUnits_replicate (n : Nat) :
    charsOfUnits (List.replicate n 0x2020) = List.replicate n '\u2020' := by
  induction n with
  | zero => rfl
  | succ n ih =>
    rw [List.replicate_succ, charsOfUnits_single rfl rfl, ih, List.replicate_succ]
    rfl

/-- Spaces of one byte read as daggers, of which none is padding, so that such a field is not blank. -/
theorem decode_replicate (n : Nat) :
    decode (List.replicate n 0x20) = String.ofList (List.replicate (n / 2) '\u2020') := by
  rw [decode, unitsOfBytes_replicate, charsOfUnits_replicate]
  congr 1
  refine List.rdropWhile_eq_self_iff.mpr fun hne => ?_
  rw [List.getLast_replicate]
  decide

end Ecma119.Ucs2
