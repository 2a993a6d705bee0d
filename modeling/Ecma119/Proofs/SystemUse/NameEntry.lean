import Ecma119.Proofs.SystemUse.Entries
import Ecma119.Sector

/-!
# System use areas with a name and nothing else

An XA record is known by two letters in its seventh and eighth byte, and by nothing else. In an area
that is one entry with a name, these are the second and the third byte of the name. So the name is
found unless it has the letters there and the area is long enough for an XA record.
-/

namespace Ecma119

namespace RockRidge

/-- The entry that gives a name without flags. -/
def nameEntry (content : Bytes) : Bytes :=
  [alternateNameSignature.1, alternateNameSignature.2, UInt8.ofNat (5 + content.length), 1, 0] ++
    content

/-- The byte that makes an area even, where its length is odd. It is read back as part of the area. -/
def evenArea (area : Bytes) : Bytes := area ++ Bytes.zeros (area.length % 2)

/-- A name whose entry is taken for an XA record, as its second and third byte stand where the signature
would. -/
def LooksLikeXa (content : Bytes) : Prop :=
  8 ≤ content.length ∧ content.slice 1 2 = XaAttributes.signature

instance (content : Bytes) : Decidable (LooksLikeXa content) := inferInstanceAs (Decidable (_ ∧ _))

variable {content : Bytes}

/-- An area with one name entry has five bytes and the name, rounded up to an even number. -/
theorem length_evenArea_nameEntry (content : Bytes) :
    (evenArea (nameEntry content)).length = padEven (5 + content.length) := by
  simp only [evenArea, nameEntry, padEven, List.length_append, List.length_cons, List.length_nil,
    Bytes.length_zeros]

/-- The letters of an XA record would be in the name, at its second and third byte. -/
theorem isSome_parse_nameEntry (content : Bytes) :
    (XaAttributes.parse (evenArea (nameEntry content))).isSome = true ↔ LooksLikeXa content := by
  rw [XaAttributes.isSome_parse, length_evenArea_nameEntry, LooksLikeXa]
  have hlength : XaAttributes.recordLength ≤ padEven (5 + content.length) ↔ 8 ≤ content.length := by
    unfold XaAttributes.recordLength padEven
    omega
  rw [hlength]
  refine and_congr_right fun hlong => ?_
  have hletters : (evenArea (nameEntry content)).slice 6 2 = content.slice 1 2 := by
    rw [evenArea, nameEntry, Bytes.slice_append_left]
    · exact Bytes.slice_append_right _ content 1 2
    · simp
      omega
  rw [hletters]

/-- The entry is laid out like any other, with its flags in front of the name. -/
theorem encode_nameEntry (content : Bytes) :
    SystemUseEntry.encode ⟨alternateNameSignature, 1, 0 :: content⟩ = nameEntry content := by
  rw [SystemUseEntry.encode, nameEntry, SystemUseEntry.headLength, List.length_cons,
    ← Nat.add_assoc, Nat.add_right_comm]
  rfl

/-- The area has one entry, with the name and its flags, unless the name looks like an XA record. -/
theorem systemUseEntries_nameEntry (hshort : content.length ≤ 250) (hxa : ¬ LooksLikeXa content) :
    systemUseEntries (evenArea (nameEntry content)) =
      [⟨alternateNameSignature, 1, 0 :: content⟩] := by
  have hnone : SystemUseEntry.start (evenArea (nameEntry content)) = evenArea (nameEntry content) :=
    if_neg (mt (isSome_parse_nameEntry content).mp hxa)
  have hlayout : evenArea (nameEntry content) =
      [⟨alternateNameSignature, 1, 0 :: content⟩].flatMap SystemUseEntry.encode ++
        Bytes.zeros ((nameEntry content).length % 2) := by
    rw [List.flatMap_singleton, encode_nameEntry, evenArea]
  have hfits : SystemUseEntry.Fits ⟨alternateNameSignature, 1, 0 :: content⟩ :=
    ⟨show alternateNameSignature ≠ SystemUseEntry.terminator by decide, Nat.succ_le_succ hshort⟩
  -- The byte that makes an area even is no entry.
  have hpadding : (Bytes.zeros ((nameEntry content).length % 2)).length <
      SystemUseEntry.headLength := by
    rw [Bytes.length_zeros, SystemUseEntry.headLength]
    omega
  rw [SystemUseEntry.systemUseEntries_eq, hnone, hlayout]
  exact SystemUseEntry.entriesFrom_layout (by simpa using hfits) (.short hpadding)

/-- The name is found as it was written, unless it is too long or looks like an XA record. -/
theorem alternateName?_nameEntry (name : String) (hshort : (Utf8.encode name).length ≤ 250)
    (hxa : ¬ LooksLikeXa (Utf8.encode name)) :
    alternateName? (evenArea (nameEntry (Utf8.encode name))) = some ⟨0, name⟩ := by
  rw [alternateName?, systemUseEntries_nameEntry hshort hxa]
  show some (AlternateName.mk 0 (Utf8.decodeLossy (Utf8.encode name))) = _
  rw [Utf8.decodeLossy_encode]

end RockRidge

end Ecma119
