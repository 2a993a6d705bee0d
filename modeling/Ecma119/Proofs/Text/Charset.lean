import Ecma119.Proofs.Text.Ending
import Ecma119.Proofs.Text.Utf8
import Ecma119.Text.Charset

/-!
# Text that is filled up with spaces

A text goes into a field if it is not too long and has no byte outside the set. The only character
whose last byte is a space is the space itself. So the spaces at the end of the bytes are those at
the end of the text, and it reads back without them.
-/

namespace Ecma119

/-! ## The spaces at the end of a text -/

/-- Only a space ends with the byte of a space, so that trimming bytes is trimming characters. -/
theorem Utf8.getLast?_encodeChar {c : Char} (h : c ≠ ' ') :
    ∀ b ∈ (String.utf8EncodeChar c).getLast?, (b == 0x20) = false := by
  have hlast (n : Nat) : UInt8.ofNat (n % 64 + 128) ≠ 0x20 := by
    rw [Ne, ← UInt8.toNat_inj, Utf8.toNat_ofNat_of_lt (by omega)]
    simp
  rw [String.utf8EncodeChar]
  split
  · next hsmall =>
    have hcode : c.toNat ≠ 0x20 := fun hcode => h (Char.ext (UInt32.toNat_inj.mp hcode))
    have hbyte : UInt8.ofNat c.val.toNat ≠ 0x20 := by
      rw [Ne, ← UInt8.toNat_inj, Utf8.toNat_ofNat_of_lt (by omega)]
      exact hcode
    simpa using hbyte
  · split
    · simpa using hlast _
    · split <;> simpa using hlast _

/-- A text reads back from its bytes without the spaces at its end, whatever characters it has. -/
theorem trimSpaces_flatMap (chars : List Char) :
    trimSpaces (chars.flatMap String.utf8EncodeChar) =
      (dropTrailing (· == ' ') chars).flatMap String.utf8EncodeChar := by
  -- from the end: a space goes with its byte, and any other last character keeps all bytes
  induction chars using List.reverseRecOn with
  | nil => rfl
  | append_singleton chars c ih =>
    rw [List.flatMap_append, List.flatMap_singleton]
    by_cases h : c = ' '
    · subst h
      have hspace : String.utf8EncodeChar ' ' = [0x20] := rfl
      rw [hspace, trimSpaces, dropTrailing_append (by simp), dropTrailing_append (by simp)]
      exact ih
    · have hnil : String.utf8EncodeChar c ≠ [] := String.utf8EncodeChar_ne_nil
      rw [dropTrailing_eq_self (by simpa using h), List.flatMap_append, List.flatMap_singleton]
      refine dropTrailing_eq_self ?_
      rw [List.getLast?_append_of_ne_nil _ hnil]
      exact Utf8.getLast?_encodeChar h

/-- Spaces behind the bytes of a text make no difference, as they are trimmed with those that it ends in.
-/
theorem trimmedText_encode_append (s : String) (n : Nat) :
    trimmedText (Utf8.encode s ++ List.replicate n 0x20) =
      String.ofList (dropTrailing (· == ' ') s.toList) := by
  have hspaces : ∀ b ∈ List.replicate n (0x20 : UInt8), (b == 0x20) = true := by
    simp
  have htrim : trimSpaces (Utf8.encode s ++ List.replicate n 0x20) =
      Utf8.encode (String.ofList (dropTrailing (· == ' ') s.toList)) := by
    rw [trimSpaces, dropTrailing_append hspaces, Utf8.encode, Utf8.encode, String.toList_ofList]
    exact trimSpaces_flatMap _
  rw [trimmedText, htrim, Utf8.decodeLossy_encode]

/-! ## What goes into a field -/

namespace Charset

variable {charset : Charset} {width : Nat} {s : String} {field : Field width}

/-- A text is padded exactly if it fits and the charset permits each of its bytes, and then it has spaces
behind it. -/
theorem pad_eq_ok :
    charset.pad width s = .ok field ↔
      ((Utf8.encode s).length ≤ width ∧ ∀ b ∈ Utf8.encode s, charset.permits b.toNat = true) ∧
        field = Field.ofBytes width (Utf8.encode s) 0x20 := by
  have hpermits : (Utf8.encode s).all (fun b => charset.permits b.toNat) = true ↔
      ∀ b ∈ Utf8.encode s, charset.permits b.toNat = true := List.all_eq_true
  rw [pad, ← hpermits]
  split
  · next hlong => simp [Nat.not_le.mpr hlong]
  · next hshort =>
    split
    · next hpermitted => simp [Nat.not_lt.mp hshort, hpermitted, eq_comm]
    · next hforbidden => simp [hforbidden]

/-- Text goes into a field if it fits and all its bytes are in the set, and for no other reason does it
not. -/
theorem exists_pad_iff :
    (∃ field, charset.pad width s = .ok field) ↔
      (Utf8.encode s).length ≤ width ∧ ∀ b ∈ Utf8.encode s, charset.permits b.toNat = true := by
  simp only [pad_eq_ok, exists_and_left, exists_eq, and_true]

/-- A text that is too long is reported as such, whatever its bytes: its length is looked at first. -/
theorem pad_of_too_long (h : width < (Utf8.encode s).length) :
    charset.pad width s = .error (.fieldOverflow (Utf8.encode s).length width) :=
  if_pos h

/-- A text that fits is refused for a byte outside the set, with `invalidName`. -/
theorem pad_of_not_permitted (hfits : (Utf8.encode s).length ≤ width)
    (h : ∃ b ∈ Utf8.encode s, charset.permits b.toNat = false) :
    charset.pad width s = .error .invalidName := by
  have hforbidden : ¬ (Utf8.encode s).all (fun b => charset.permits b.toNat) = true := by
    simpa using h
  rw [pad, if_neg (Nat.not_lt.mpr hfits), if_neg hforbidden]

/-- What was filled up with spaces reads back without the spaces at its end, those of the text included.
-/
theorem trimmedText_of_pad (h : charset.pad width s = .ok field) :
    trimmedText field.toList = String.ofList (dropTrailing (· == ' ') s.toList) := by
  obtain ⟨⟨hfits, -⟩, rfl⟩ := pad_eq_ok.mp h
  have hbytes : (Field.ofBytes width (Utf8.encode s) 0x20).toList =
      Utf8.encode s ++ List.replicate (width - (Utf8.encode s).length) 0x20 := by
    simp [Field.ofBytes, Bytes.fit, List.take_of_length_le hfits]
  rw [hbytes, trimmedText_encode_append]

end Charset

end Ecma119
