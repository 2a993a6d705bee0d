import Ecma119.PathTable
import Ecma119.Proofs.Decoder

/-!
# Path tables read back

An entry gives the length of its identifier and is filled up to an even length, so entries that are
written one behind the other are found again one behind the other: `readPathTable_encode` says so of
any entries and whatever is read behind them, and `readPathTable_ofList` of whole tables.
-/

namespace Ecma119

/-- The identifier has a length that is told by one byte and does not end the table. -/
def PathTableEntry.IsNamed (e : PathTableEntry) : Prop := e.name ≠ [] ∧ e.name.length ≤ 255

namespace PathTableEntry

variable {e : PathTableEntry}

/-- An entry is written with as many bytes as `PathTableEntry.size` says. -/
theorem length_encode (order : ByteOrder) (e : PathTableEntry) :
    (e.encode order).length = e.size := by
  simp only [encode, ByteOrder.bytes32, ByteOrder.bytes16, List.length_append, List.length_cons,
    List.length_nil, ByteOrder.length_bytes, Bytes.length_zeros, size, padEven, headLength]

theorem toNat_nameLength (h : e.name.length ≤ 255) :
    (UInt8.ofNat e.name.length).toNat = e.name.length :=
  UInt8.toNat_ofNat_of_lt (Nat.lt_succ_of_le h)

/-- The entry's bytes without the padding. -/
def parts (order : ByteOrder) (e : PathTableEntry) : Bytes :=
  [UInt8.ofNat e.name.length, e.extAttrLength] ++ order.bytes32 e.extent ++
    order.bytes16 e.parent ++ e.name

/-- An entry is written as its parts, with a zero behind them if there are an odd number of bytes. -/
theorem encode_eq (order : ByteOrder) (e : PathTableEntry) :
    e.encode order = e.parts order ++ Bytes.zeros ((headLength + e.name.length) % 2) := rfl

/-- An entry is read where its parts are, whatever follows them: its padding is no part of what is
decoded. -/
theorem decode_parts_append (order : ByteOrder) (h : e.name.length ≤ 255) (tail : Bytes) :
    (decoder order).decode (e.parts order ++ tail) = .ok e := by
  have hlength := toNat_nameLength h
  refine Decoder.decode_eq_ok.mpr ⟨tail, ?_⟩
  simp only [parts, List.append_assoc, List.cons_append, List.nil_append]
  rw [decoder, Decoder.bind_eq (Decoder.byte_cons ..), Decoder.bind_eq (Decoder.byte_cons ..),
    Decoder.bind_eq (Decoder.u32_append ..), Decoder.bind_eq (Decoder.u16_append ..),
    Decoder.bind_eq (Decoder.bytes_append hlength.symm _)]
  rfl

/-- The length of a name never looks like the end of the table, as there are no entries without a name.
-/
theorem nameLength_ne_zero (h : e.IsNamed) : UInt8.ofNat e.name.length ≠ 0 := by
  intro hzero
  have hlength := toNat_nameLength h.2
  rw [hzero] at hlength
  exact h.1 (List.length_eq_zero_iff.mp hlength.symm)

/-- Where the parts of an entry are, the entry is read, and the table goes on where its even length
ends. -/
theorem readPathTable_parts_append (order : ByteOrder) (h : e.IsNamed) (tail : Bytes) :
    readPathTable order (e.parts order ++ tail) =
      (readPathTable order ((e.parts order ++ tail).drop e.size)).map (e :: ·) := by
  have hdecode := decode_parts_append order h.2 tail
  have hsize : e.size = padEven (8 + (UInt8.ofNat e.name.length).toNat) - 1 + 1 := by
    rw [toNat_nameLength h.2, size, headLength]
    unfold padEven
    omega
  obtain ⟨rest, hrest⟩ : ∃ rest, e.parts order ++ tail = UInt8.ofNat e.name.length :: rest :=
    ⟨_, rfl⟩
  rw [hrest] at hdecode ⊢
  rw [hsize, List.drop_succ_cons, readPathTable, if_neg (nameLength_ne_zero h), hdecode]
  rfl

/-- A table goes on behind an entry, padding included, as it does without the entry in front. -/
theorem readPathTable_encode_append (order : ByteOrder) (h : e.IsNamed) (tail : Bytes) :
    readPathTable order (e.encode order ++ tail) =
      (readPathTable order tail).map (e :: ·) := by
  have hdrop : (e.encode order ++ tail).drop e.size = tail :=
    List.drop_left' (length_encode order e)
  rw [encode_eq, List.append_assoc] at hdrop ⊢
  rw [readPathTable_parts_append order h, hdrop]

end PathTableEntry

/-- Entries are read back in their order, and then what follows them. The induction is on the entries. -/
theorem readPathTable_encode (order : ByteOrder) {entries more : List PathTableEntry} {tail : Bytes}
    (h : ∀ e ∈ entries, e.IsNamed) (htail : readPathTable order tail = .ok more) :
    readPathTable order (entries.flatMap (PathTableEntry.encode order) ++ tail) =
      .ok (entries ++ more) := by
  induction entries with
  | nil => exact htail
  | cons e entries ih =>
    obtain ⟨he, hentries⟩ := List.forall_mem_cons.mp h
    rw [List.flatMap_cons, List.append_assoc,
      PathTableEntry.readPathTable_encode_append order he, ih hentries]
    rfl

/-- A zero ends a table, as does the end of the bytes. What is behind the zero is not looked at. -/
theorem readPathTable_end (order : ByteOrder) (behind : Bytes) (h : ∀ b ∈ behind.head?, b = 0) :
    readPathTable order behind = .ok [] := by
  cases behind with
  | nil => rw [readPathTable]
  | cons b rest => rw [readPathTable, if_pos (h b rfl)]

namespace PathTable

/-- A table is written with as many bytes as its entries have. -/
theorem length_encode (order : ByteOrder) (t : PathTable) : (t.encode order).length = t.size := by
  rw [encode, size]
  induction t.toList with
  | nil => rfl
  | cons e entries ih =>
    rw [List.flatMap_cons, List.length_append, PathTableEntry.length_encode, ih, List.foldr_cons]

/-- A table that was written reads back in either byte order if each of its entries has a name. -/
theorem readPathTable_toList (order : ByteOrder) {t : PathTable} (h : ∀ e ∈ t.toList, e.IsNamed) :
    readPathTable order (t.encode order) = .ok t.toList := by
  have hread := readPathTable_encode order h (readPathTable_end order [] nofun)
  rwa [List.append_nil, List.append_nil] at hread

/-- **A path table reads back in both byte orders.** Its bytes are as many as it says, and are read
as the entries they were made of, whatever stands behind a zero that follows them. -/
theorem readPathTable_ofList {entries : List PathTableEntry}
    (hnamed : ∀ e ∈ entries, 1 ≤ e.name.length ∧ e.name.length ≤ 255) :
    let table := ofList entries
    (∀ order, (table.encode order).length = table.size) ∧
      (∀ order (behind : Bytes), (∀ b ∈ behind.head?, b = 0) →
        readPathTable order (table.encode order ++ behind) = .ok entries) ∧
      readPathTable .little (table.encode .little) = readPathTable .big (table.encode .big) := by
  intro table
  have hnamed : ∀ e ∈ table.toList, e.IsNamed := fun e he =>
    ⟨List.ne_nil_of_length_pos (hnamed e he).1, (hnamed e he).2⟩
  refine ⟨fun order => length_encode order table, fun order behind hbehind => ?_, ?_⟩
  · have hread := readPathTable_encode order hnamed (readPathTable_end order behind hbehind)
    rwa [List.append_nil] at hread
  · rw [readPathTable_toList .little hnamed, readPathTable_toList .big hnamed]

/-- Names of odd and of even length, so that one entry is filled up and the other is not. -/
theorem readPathTable_ofList_oddName :
    let entries : List PathTableEntry := [⟨[0], 0, 18, 1⟩, ⟨[0x41, 0x42], 3, 70000, 1⟩]
    readPathTable .big ((ofList entries).encode .big ++ [0, 9]) = .ok entries := by
  intro entries
  have hnamed : ∀ e ∈ entries, 1 ≤ e.name.length ∧ e.name.length ≤ 255 := by decide
  exact (readPathTable_ofList hnamed).2.1 .big [0, 9] (by simp)

end PathTable

end Ecma119
