import Ecma119.Proofs.Directory.AlternateName
import Ecma119.Proofs.Directory.Identifiers
import Ecma119.Proofs.Directory.RecordRestored

/-!
# Joliet names

Of a text that is recorded, padding at its end is lost and nothing else. What any bytes read as has no
padding at its end, so that it is read back when it is recorded again. An identifier that records a text
has an even number of bytes, which the identifiers of the directory itself and of its parent have not.
-/

namespace Ecma119

namespace Ucs2

/-! ## Texts and bytes -/

/-- A text is read back but for the padding at its end, which a name in a record cannot keep. -/
theorem exists_padding (s : String) :
    ∃ padding, s.toList = (decode (encode s)).toList ++ padding ∧
      ∀ c ∈ padding, isPadding c = true := by
  rw [decode_encode, String.toList_ofList]
  exact exists_dropped isPadding s.toList

/-- What is read does not end with padding, so that reading and writing it again changes nothing. -/
theorem unpadded_decode (bytes : Bytes) : ∀ c ∈ (decode bytes).toList.getLast?, isPadding c = false := by
  rw [decode, String.toList_ofList]
  exact getLast?_dropTrailing isPadding _

theorem length_encode_mod_two (s : String) : (encode s).length % 2 = 0 := by
  rw [encode, length_flatMap_bytes16, Nat.mul_mod_right]

/-- Only the empty text has no bytes, so that any other can be the name of a record. -/
theorem encode_ne_nil {s : String} (h : s ≠ "") : encode s ≠ [] := by
  intro hnil
  have hchars := charsOfUnits_flatMap s.toList
  rw [← unitsOfBytes_flatMap (s.toList.flatMap unitsOfChar)] at hchars
  have hempty : s.toList = charsOfUnits (unitsOfBytes (encode s)) := hchars.symm
  rw [hnil] at hempty
  exact h (String.toList_inj.mp hempty)

end Ucs2

/-! ## Records -/

namespace DirectoryRecord

variable {r : DirectoryRecord} {s : String}

/-- The identifiers that stand for directories are single bytes, which no text in UCS-2 is. -/
theorem length_name_of_isDot (h : r.isDot = true) : r.name.length = 1 := by
  rw [isDot, Bool.or_eq_true, isSelf, isParent, decide_eq_true_eq, decide_eq_true_eq] at h
  rcases h with h | h
  · rw [h]
    rfl
  · rw [h]
    rfl

/-- An identifier that records a text is not taken for one of a directory itself or of its parent. -/
theorem spells_of_encode (hname : r.name = Ucs2.encode s)
    (hpadding : ∀ c ∈ s.toList.getLast?, Ucs2.isPadding c = false) : r.Spells true s where
  notDot := by
    rw [Bool.eq_false_iff]
    intro hdot
    have heven := Ucs2.length_encode_mod_two s
    rw [← hname, length_name_of_isDot hdot] at heven
    cases heven
  name := hname
  unpadded _ := hpadding

end DirectoryRecord

/-- **Joliet names survive.** A text that is recorded is read back but for the spaces and NULs at its end,
and what any bytes read as is read again from the bytes that record it. So a record whose identifier
records a text without such an end is listed under that text, on its own or in any directory that can be
listed, and is never taken for the record of a directory itself or of its parent. -/
theorem jolietNames_survive :
    (∀ s, ∃ padding, s.toList = (Ucs2.decode (Ucs2.encode s)).toList ++ padding ∧
      (∀ c ∈ padding, Ucs2.isPadding c = true) ∧
      ∀ c ∈ (Ucs2.decode (Ucs2.encode s)).toList.getLast?, Ucs2.isPadding c = false) ∧
    (∀ bytes, Ucs2.decode (Ucs2.encode (Ucs2.decode bytes)) = Ucs2.decode bytes) ∧
    ∀ (opts : ListOptions) (r : DirectoryRecord) (s : String), opts.joliet = true → s ≠ "" →
      (∀ c ∈ s.toList.getLast?, Ucs2.isPadding c = false) → r.name = Ucs2.encode s →
      r.isDot = false ∧ r.rawName opts.joliet = s ∧
      (r.encodedLength ≤ 255 → r.flags.isMultiExtent = false →
        ∃ bytes e, r.encode = .ok bytes ∧ parseDirectory opts bytes = .ok [e] ∧
          e.rawName = s ∧ e.extents = [⟨r.extent, r.size⟩]) ∧
      ∀ extent entries offset, parseDirectory opts extent = .ok entries →
        .ok (offset, r) ∈ recordsOf opts.policy extent →
        ∃ e ∈ entries, e.rawName = s ∧ ⟨r.extent, r.size⟩ ∈ e.extents := by
  refine ⟨fun s => ?_, fun bytes => ?_, fun opts r s hjoliet hne hpadding hname => ?_⟩
  · obtain ⟨padding, hs, hdropped⟩ := Ucs2.exists_padding s
    exact ⟨padding, hs, hdropped, Ucs2.unpadded_decode _⟩
  · exact Ucs2.decode_encode_of_unpadded (Ucs2.unpadded_decode bytes)
  · have hspells := DirectoryRecord.spells_of_encode hname hpadding
    have hraw : r.rawName opts.joliet = s := by
      rw [hjoliet]
      exact DirectoryRecord.rawName_of_spells hspells
    refine ⟨hspells.notDot, hraw, fun hfit hended => ?_, fun extent entries offset hlisted hmem => ?_⟩
    · have hidentifier : r.name ≠ [] := hname ▸ Ucs2.encode_ne_nil hne
      obtain ⟨bytes, hencode⟩ := DirectoryRecord.exists_encode_iff.mpr ⟨hidentifier, hfit⟩
      exact ⟨bytes, _, hencode, parseDirectory_encode hencode hspells.notDot hended, hraw, rfl⟩
    · obtain ⟨e, he, chain, hchain, hentry, hr⟩ :=
        exists_entry_of_mem_recordsOf hlisted hmem hspells.notDot
      refine ⟨e, he, (hentry.rawName_eq hchain hr).trans hraw, ?_⟩
      rw [hentry.extents]
      exact List.mem_map_of_mem hr

/-- A record with a letter outside ASCII in its name, and a character outside the basic plane. -/
def musicRecord : DirectoryRecord := .ofExtent (Ucs2.encode "Über 𝄞;1") 20 3 ⟨0⟩

/-- The record is listed under its name, with the notes in it and with its case kept. -/
theorem jolietNames_survive_music :
    ∃ bytes e, musicRecord.encode = .ok bytes ∧
      parseDirectory { joliet := true } bytes = .ok [e] ∧ e.rawName = "Über 𝄞;1" ∧
      e.extents = [⟨20, 3⟩] := by
  have hpadding : ∀ c ∈ ("Über 𝄞;1" : String).toList.getLast?, Ucs2.isPadding c = false := by
    rintro c ⟨⟩
    rfl
  obtain ⟨-, -, hlisted⟩ := jolietNames_survive
  obtain ⟨-, -, halone, -⟩ :=
    hlisted { joliet := true } musicRecord "Über 𝄞;1" rfl (by decide) hpadding rfl
  exact halone (by decide +kernel) (by decide +kernel)

end Ecma119
