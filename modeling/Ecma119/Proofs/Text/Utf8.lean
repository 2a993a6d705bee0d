import Ecma119.Text.Utf8
import Mathlib.Data.String.Basic

/-!
# Text that is read back from its bytes

The bytes that encode a character are read as that character, whatever follows them. The leads of
several bytes are taken one after the other: the first byte tells how many follow and in what range
the next has to be, and each of the others adds its six bits. Surrogates are no characters, which is
what the range behind the byte `0xED` leaves out.
-/

namespace Ecma119.Utf8

/-! ## The first byte -/

theorem toNat_ofNat_of_lt {n : Nat} (h : n < 256) : (UInt8.ofNat n).toNat = n := by
  rw [UInt8.toNat_ofNat', Nat.mod_eq_of_lt h]

/-- What a first byte announces, by its value: how many bytes follow, and which the next may be. -/
theorem lead?_ofNat {n : Nat} (h : n < 256) :
    lead? (UInt8.ofNat n) =
      if 0xC2 ≤ n ∧ n ≤ 0xDF then some (1, 0x80, 0xBF)
      else if n = 0xE0 then some (2, 0xA0, 0xBF)
      else if n = 0xED then some (2, 0x80, 0x9F)
      else if 0xE1 ≤ n ∧ n ≤ 0xEF then some (2, 0x80, 0xBF)
      else if n = 0xF0 then some (3, 0x90, 0xBF)
      else if n = 0xF4 then some (3, 0x80, 0x8F)
      else if 0xF1 ≤ n ∧ n ≤ 0xF3 then some (3, 0x80, 0xBF)
      else none := by
  simp only [lead?, UInt8.le_iff_toNat_le, ← UInt8.toNat_inj, toNat_ofNat_of_lt h]
  rfl

/-- A character of several bytes is read as the value that its continuation bytes complete. -/
theorem readChar_ofNat {n count : Nat} {lo hi : UInt8} (h : n < 256) (hmulti : 0x80 ≤ n)
    (hlead : lead? (UInt8.ofNat n) = some (count, lo, hi)) (rest : Bytes) :
    readChar (UInt8.ofNat n) rest =
      ((continuation count lo hi (n % (64 >>> count)) rest).1.map Char.ofNat,
        (continuation count lo hi (n % (64 >>> count)) rest).2) := by
  have hsmall : ¬ UInt8.ofNat n < 0x80 := by
    rw [UInt8.lt_iff_toNat_lt, toNat_ofNat_of_lt h]
    exact Nat.not_lt.mpr hmulti
  rw [readChar, if_neg hsmall, hlead, toNat_ofNat_of_lt h]

/-- A continuation byte adds its six bits, as long as it is one that the first byte allows. -/
theorem continuation_ofNat {bits count value : Nat} {lo hi : UInt8} (hbits : bits < 64)
    (hlo : lo.toNat ≤ bits + 128) (hhi : bits + 128 ≤ hi.toNat) (rest : Bytes) :
    continuation (count + 1) lo hi value (UInt8.ofNat (bits + 128) :: rest) =
      ((continuation count 0x80 0xBF (value * 64 + bits) rest).1,
        (continuation count 0x80 0xBF (value * 64 + bits) rest).2 + 1) := by
  have hbyte : (UInt8.ofNat (bits + 128)).toNat = bits + 128 := toNat_ofNat_of_lt (by omega)
  have hrange : lo ≤ UInt8.ofNat (bits + 128) ∧ UInt8.ofNat (bits + 128) ≤ hi := by
    rw [UInt8.le_iff_toNat_le, UInt8.le_iff_toNat_le, hbyte]
    exact ⟨hlo, hhi⟩
  have hvalue : value * 64 + (bits + 128) % 64 = value * 64 + bits := by omega
  rw [continuation, if_pos hrange, hbyte, hvalue]

theorem continuation_zero (lo hi : UInt8) (value : Nat) (rest : Bytes) :
    continuation 0 lo hi value rest = (some value, 0) := rfl

/-! ## Characters by the number of their bytes -/

section Widths

variable {v : Nat}

/-- A character that takes two bytes is read back from these, whatever is behind them. -/
theorem readChar_two (hmin : 0x80 ≤ v) (hmax : v ≤ 0x7FF) (rest : Bytes) :
    readChar (UInt8.ofNat (v / 64 % 32 + 192)) (UInt8.ofNat (v % 64 + 128) :: rest) =
      (some (Char.ofNat v), 1) := by
  have hlead : lead? (UInt8.ofNat (v / 64 % 32 + 192)) = some (1, 0x80, 0xBF) := by
    rw [lead?_ofNat (by omega), if_pos (by omega)]
  rw [readChar_ofNat (by omega) (by omega) hlead,
    continuation_ofNat (by omega) (by simp) (by simp; omega), continuation_zero]
  have hvalue : (v / 64 % 32 + 192) % (64 >>> 1) * 64 + v % 64 = v := by
    show (v / 64 % 32 + 192) % 32 * 64 + v % 64 = v
    omega
  rw [hvalue]
  rfl

/-- The range of the second byte of three leaves out what two bytes can hold, and surrogates. -/
theorem lead?_three (hmin : 0x800 ≤ v) (hmax : v ≤ 0xFFFF) (hscalar : v < 0xD800 ∨ 0xDFFF < v) :
    ∃ lo hi, lead? (UInt8.ofNat (v / 4096 % 16 + 224)) = some (2, lo, hi) ∧
      lo.toNat ≤ v / 64 % 64 + 128 ∧ v / 64 % 64 + 128 ≤ hi.toNat := by
  rw [lead?_ofNat (by omega), if_neg (by omega)]
  split
  · exact ⟨0xA0, 0xBF, rfl, by simp; omega, by simp; omega⟩
  · split
    · exact ⟨0x80, 0x9F, rfl, by simp, by simp; omega⟩
    · rw [if_pos (by omega)]
      exact ⟨0x80, 0xBF, rfl, by simp, by simp; omega⟩

/-- A character that takes three bytes is read back from these, unless its number is kept free for
surrogates. -/
theorem readChar_three (hmin : 0x800 ≤ v) (hmax : v ≤ 0xFFFF) (hscalar : v < 0xD800 ∨ 0xDFFF < v)
    (rest : Bytes) :
    readChar (UInt8.ofNat (v / 4096 % 16 + 224))
        (UInt8.ofNat (v / 64 % 64 + 128) :: UInt8.ofNat (v % 64 + 128) :: rest) =
      (some (Char.ofNat v), 2) := by
  obtain ⟨lo, hi, hlead, hlo, hhi⟩ := lead?_three hmin hmax hscalar
  rw [readChar_ofNat (by omega) (by omega) hlead, continuation_ofNat (by omega) hlo hhi,
    continuation_ofNat (by omega) (by simp) (by simp; omega), continuation_zero]
  have hvalue : ((v / 4096 % 16 + 224) % (64 >>> 2) * 64 + v / 64 % 64) * 64 + v % 64 = v := by
    show ((v / 4096 % 16 + 224) % 16 * 64 + v / 64 % 64) * 64 + v % 64 = v
    omega
  rw [hvalue]
  rfl

/-- The range of the second byte of four leaves out what three bytes can hold, and what is behind
the last character. -/
theorem lead?_four (hmin : 0x10000 ≤ v) (hmax : v < 0x110000) :
    ∃ lo hi, lead? (UInt8.ofNat (v / 262144 % 8 + 240)) = some (3, lo, hi) ∧
      lo.toNat ≤ v / 4096 % 64 + 128 ∧ v / 4096 % 64 + 128 ≤ hi.toNat := by
  rw [lead?_ofNat (by omega), if_neg (by omega), if_neg (by omega), if_neg (by omega),
    if_neg (by omega)]
  split
  · exact ⟨0x90, 0xBF, rfl, by simp; omega, by simp; omega⟩
  · split
    · exact ⟨0x80, 0x8F, rfl, by simp, by simp; omega⟩
    · rw [if_pos (by omega)]
      exact ⟨0x80, 0xBF, rfl, by simp, by simp; omega⟩

/-- A character that takes four bytes is read back from these, up to the last one that there is. -/
theorem readChar_four (hmin : 0x10000 ≤ v) (hmax : v < 0x110000) (rest : Bytes) :
    readChar (UInt8.ofNat (v / 262144 % 8 + 240))
        (UInt8.ofNat (v / 4096 % 64 + 128) :: UInt8.ofNat (v / 64 % 64 + 128) ::
          UInt8.ofNat (v % 64 + 128) :: rest) =
      (some (Char.ofNat v), 3) := by
  obtain ⟨lo, hi, hlead, hlo, hhi⟩ := lead?_four hmin hmax
  rw [readChar_ofNat (by omega) (by omega) hlead, continuation_ofNat (by omega) hlo hhi,
    continuation_ofNat (by omega) (by simp) (by simp; omega),
    continuation_ofNat (by omega) (by simp) (by simp; omega), continuation_zero]
  have hvalue : (((v / 262144 % 8 + 240) % (64 >>> 3) * 64 + v / 4096 % 64) * 64 +
      v / 64 % 64) * 64 + v % 64 = v := by
    show (((v / 262144 % 8 + 240) % 8 * 64 + v / 4096 % 64) * 64 + v / 64 % 64) * 64 + v % 64 = v
    omega
  rw [hvalue]
  rfl

end Widths

/-! ## Sizes -/

/-- No character takes more than four bytes, so that a short text is one in bytes too. -/
theorem utf8ByteSize_le (s : String) : s.utf8ByteSize ≤ 4 * s.length := by
  have hchars (chars : List Char) : String.utf8Len chars ≤ 4 * chars.length := by
    induction chars with
    | nil => simp
    | cons c chars ih =>
      have hc := c.utf8Size_le_four
      rw [String.utf8Len_cons, List.length_cons]
      omega
  rw [← String.utf8Len_toList, ← String.length_toList]
  exact hchars _

/-- Every character takes a byte at least, so that a text is no longer than its bytes. -/
theorem length_le_length_encode (s : String) : s.length ≤ (encode s).length := by
  have hchars (chars : List Char) :
      chars.length ≤ (chars.flatMap String.utf8EncodeChar).length := by
    induction chars with
    | nil => simp
    | cons c chars ih =>
      have hc := c.utf8Size_pos
      rw [List.flatMap_cons, List.length_append, String.length_utf8EncodeChar, List.length_cons]
      omega
  rw [encode, ← String.length_toList]
  exact hchars _

/-! ## Texts -/

/-- The bytes of a character are read as that character, whatever follows them. -/
theorem decodeChars_encodeChar (c : Char) (rest : Bytes) :
    decodeChars (String.utf8EncodeChar c ++ rest) = c :: decodeChars rest := by
  have hscalar : c.val.toNat < 0xD800 ∨ 0xDFFF < c.val.toNat ∧ c.val.toNat < 0x110000 := c.valid
  have hchar : Char.ofNat c.val.toNat = c := Char.ofNat_toNat c
  rw [String.utf8EncodeChar]
  split
  · next hsmall =>
    have hascii : UInt8.ofNat c.val.toNat < 0x80 := by
      rw [UInt8.lt_iff_toNat_lt, toNat_ofNat_of_lt (by omega)]
      exact Nat.lt_succ_of_le hsmall
    rw [List.singleton_append, decodeChars, readChar, if_pos hascii, toNat_ofNat_of_lt (by omega),
      hchar]
    rfl
  · split
    · rw [List.cons_append, decodeChars, List.singleton_append,
        readChar_two (by omega) (by omega), hchar]
      rfl
    · split
      · rw [List.cons_append, decodeChars, List.cons_append, List.singleton_append,
          readChar_three (by omega) (by omega) (by omega), hchar]
        rfl
      · rw [List.cons_append, decodeChars, List.cons_append, List.cons_append,
          List.singleton_append, readChar_four (by omega) (by omega), hchar]
        rfl

/-- A text is read back from its bytes, without replacement characters, whatever characters it has. -/
theorem decodeLossy_encode (s : String) : decodeLossy (encode s) = s := by
  have hchars : ∀ chars : List Char,
      decodeChars (chars.flatMap String.utf8EncodeChar) = chars := by
    intro chars
    induction chars with
    | nil => rw [List.flatMap_nil, decodeChars]
    | cons c chars ih => rw [List.flatMap_cons, decodeChars_encodeChar, ih]
  rw [decodeLossy, encode, hchars, String.ofList_toList]

end Ecma119.Utf8
