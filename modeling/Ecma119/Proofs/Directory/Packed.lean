import Ecma119.Directory.Authoring
import Ecma119.Directory.Cursor
import Ecma119.Proofs.Directory.RecordRoundTrip

/-!
# Packed records

Two walks go over a directory extent: the one that gives its records passes over padding sector by
sector, the one that looks for room passes over it byte by byte. `Packed` tells how records lie in an
extent that was filled by appending, each at the place that `Authoring.placeFor` gives it. Over such
bytes both walks come to the end of the last record, and the first gives exactly the records.
-/

namespace Ecma119

/-! ## The walk that gives records -/

namespace Cursor

variable {policy : EndianPolicy}

/-- A walk that comes to an item gives it first, and then what it gives from where it stands behind the
item. -/
theorem items_eq_cons {c c' : Cursor} {item : WalkItem} (h : c.next policy = (some item, c')) :
    c.items policy = item :: c'.items policy := by
  rw [items]
  split
  · next heq =>
    rw [h] at heq
    simp at heq
  · next heq =>
    rw [h] at heq
    obtain ⟨rfl, rfl⟩ : item = _ ∧ c' = _ := by simpa using heq
    rfl

theorem items_eq_nil {c : Cursor} (h : (c.next policy).1 = none) : c.items policy = [] := by
  rw [items]
  split
  · rfl
  · next heq => simp [heq] at h

/-- A walk depends on where it stands once it has passed over padding, and not on the padding. -/
theorem items_eq_of_skipPadding_eq {c c' : Cursor} (h : c.skipPadding = c'.skipPadding) :
    c.items policy = c'.items policy := by
  have hnext : c.next policy = c'.next policy := by rw [next, next, h]
  cases hc : c.next policy with
  | mk item after =>
    rw [hc] at hnext
    cases item with
    | none => rw [items_eq_nil (by rw [hc]), items_eq_nil (by rw [← hnext])]
    | some item => rw [items_eq_cons hc, items_eq_cons hnext.symm]

/-- A byte other than zero starts a record, so that nothing is passed over. -/
theorem skipPadding_cons_of_ne_zero {offset : Nat} {b : UInt8} {tail : Bytes} (hb : b ≠ 0) :
    skipPadding ⟨offset, b :: tail⟩ = ⟨offset, b :: tail⟩ := by
  rw [skipPadding]
  split
  · next heq => simp_all
  · rfl

/-- A zero where a record could start is padding up to the end of the sector, and so may be what is
behind that. -/
theorem skipPadding_cons_zero (offset : Nat) (tail : Bytes) :
    skipPadding ⟨offset, 0 :: tail⟩ =
      skipPadding (advance ⟨offset, 0 :: tail⟩ (remainingInSector offset)) :=
  skipPadding.eq_def ⟨offset, 0 :: tail⟩

/-- A record that does not cross a sector boundary is the next item, and the walk goes on behind it. -/
theorem items_record {bytes : Bytes} {r : DirectoryRecord} (h : StoredAs policy bytes r)
    {offset : Nat} (hfit : bytes.length ≤ remainingInSector offset) (rest : Bytes) :
    items policy ⟨offset, bytes ++ rest⟩ =
      .ok (offset, r) :: items policy ⟨offset + bytes.length, rest⟩ := by
  obtain ⟨b, tail, rfl, hb, hlen⟩ := h.exists_cons
  have htake : (b :: tail ++ rest).take b.toNat = b :: tail := by simp [hlen]
  have hread : readRecord policy ⟨offset, b :: tail ++ rest⟩ b.toNat =
      (.ok (offset, r), ⟨offset + (b :: tail).length, rest⟩) := by
    rw [readRecord]
    dsimp only
    rw [htake, if_neg, h.parsed]
    · simp [advance, hlen]
    · simp only [List.length_cons] at hfit ⊢
      omega
  have hnext : next policy ⟨offset, b :: tail ++ rest⟩ =
      (some (.ok (offset, r)), ⟨offset + (b :: tail).length, rest⟩) := by
    rw [next, List.cons_append, skipPadding_cons_of_ne_zero hb]
    dsimp only
    rw [← List.cons_append, hread]
  exact items_eq_cons hnext

/-- Zeros up to the end of a sector give nothing, and the walk goes on with the next sector. -/
theorem items_padding (offset : Nat) (rest : Bytes) :
    items policy ⟨offset, Bytes.zeros (remainingInSector offset) ++ rest⟩ =
      items policy ⟨offset + remainingInSector offset, rest⟩ := by
  apply items_eq_of_skipPadding_eq
  obtain ⟨n, hn⟩ := Nat.exists_eq_succ_of_ne_zero (Nat.ne_of_gt (remainingInSector_pos offset))
  have hzeros : Bytes.zeros (remainingInSector offset) = 0 :: Bytes.zeros n := by
    rw [hn]
    rfl
  rw [hzeros, List.cons_append, skipPadding_cons_zero, advance]
  dsimp only
  rw [← List.cons_append, ← hzeros, List.drop_left' (Bytes.length_zeros _)]

/-- Zeros are padding, however many sectors they fill. -/
theorem rest_skipPadding_zeros (offset n : Nat) :
    (skipPadding ⟨offset, Bytes.zeros n⟩).rest = [] := by
  induction n using Nat.strongRecOn generalizing offset with
  | ind n ih =>
    cases n with
    | zero =>
      rw [skipPadding]
      rfl
    | succ n =>
      show (skipPadding ⟨offset, 0 :: Bytes.zeros n⟩).rest = []
      have hpos := remainingInSector_pos offset
      have hadvance : advance ⟨offset, 0 :: Bytes.zeros n⟩ (remainingInSector offset) =
          ⟨offset + remainingInSector offset, Bytes.zeros (n + 1 - remainingInSector offset)⟩ := by
        show Cursor.mk _ ((Bytes.zeros (n + 1)).drop _) = _
        simp [Bytes.zeros]
      rw [skipPadding_cons_zero, hadvance]
      exact ih _ (by omega) _

/-- Nothing but zeros gives nothing, wherever the sectors end and however many there are. -/
theorem items_zeros (offset n : Nat) : items policy ⟨offset, Bytes.zeros n⟩ = [] := by
  have hnext : (next policy ⟨offset, Bytes.zeros n⟩).1 = none := by
    rw [next]
    dsimp only
    rw [rest_skipPadding_zeros]
  exact items_eq_nil hnext

end Cursor

/-! ## The walk that looks for room -/

namespace Authoring

/-- Zeros are passed over one by one, whatever sector they are in, so that the search ends where it
started. -/
theorem endOfRecordsFrom_zeros (offset lastEnd n : Nat) (rest : Bytes) :
    endOfRecordsFrom offset lastEnd (Bytes.zeros n ++ rest) =
      endOfRecordsFrom (offset + n) lastEnd rest := by
  induction n generalizing offset with
  | zero => rfl
  | succ n ih =>
    show endOfRecordsFrom offset lastEnd (0 :: (Bytes.zeros n ++ rest)) = _
    rw [endOfRecordsFrom, if_pos rfl, ih, Nat.add_assoc, Nat.add_comm 1 n]

/-- A record is passed over at once, and what comes after it has its end behind it. -/
theorem endOfRecordsFrom_record {policy : EndianPolicy} {bytes : Bytes} {r : DirectoryRecord}
    (h : StoredAs policy bytes r) (offset lastEnd : Nat) (rest : Bytes) :
    endOfRecordsFrom offset lastEnd (bytes ++ rest) =
      endOfRecordsFrom (offset + bytes.length) (offset + bytes.length) rest := by
  obtain ⟨b, tail, rfl, hb, hlen⟩ := h.exists_cons
  rw [List.cons_append, endOfRecordsFrom, if_neg hb]
  dsimp only
  rw [if_neg (by simp [hlen]), hlen]
  simp

/-! ## The place of the next record -/

/-- A record goes where the last one ended, or to the next sector if it would cross a boundary. -/
theorem placeFor_cases (offset : Nat) {length : Nat} (h : length ≤ 255) :
    (placeFor offset length = offset ∧ length ≤ remainingInSector offset) ∨
      placeFor offset length = offset + remainingInSector offset := by
  unfold placeFor remainingInSector alignToSector sectorSize
  split
  · right
    omega
  · left
    omega

/-- A record is never placed before the offset that it is to come behind. -/
theorem le_placeFor (offset : Nat) {length : Nat} (h : length ≤ 255) :
    offset ≤ placeFor offset length := by
  rcases placeFor_cases offset h with ⟨hplace, -⟩ | hplace <;> omega

/-- At a boundary the whole sector is left, so that a record of any length fits there. -/
theorem remainingInSector_boundary (offset : Nat) :
    remainingInSector (offset + remainingInSector offset) = 2048 := by
  unfold remainingInSector sectorSize
  omega

/-- A record does not cross a boundary where it goes, as no record is longer than a sector. -/
theorem fits_placeFor (offset : Nat) {length : Nat} (h : length ≤ 255) :
    length ≤ remainingInSector (placeFor offset length) := by
  rcases placeFor_cases offset h with ⟨hplace, hfit⟩ | hplace
  · rwa [hplace]
  · rw [hplace, remainingInSector_boundary]
    omega

end Authoring

/-! ## Packed records -/

/-- The bytes up to the end of the last record, as appending leaves them: records at the places that
they were given, and zeros between them. -/
inductive Packed (policy : EndianPolicy) : Bytes → List (Nat × DirectoryRecord) → Prop
  | empty : Packed policy [] []
  | append {used bytes : Bytes} {records : List (Nat × DirectoryRecord)} {r : DirectoryRecord}
      (before : Packed policy used records) (stored : StoredAs policy bytes r) :
      Packed policy
        (used ++ Bytes.zeros (Authoring.placeFor used.length bytes.length - used.length) ++ bytes)
        (records ++ [(Authoring.placeFor used.length bytes.length, r)])

namespace Packed

variable {policy : EndianPolicy} {used : Bytes} {records : List (Nat × DirectoryRecord)}

/-- The walk over an extent gives the packed records and goes on behind the last of them. -/
theorem items_append (h : Packed policy used records) (rest : Bytes) :
    Cursor.items policy ⟨0, used ++ rest⟩ =
      records.map .ok ++ Cursor.items policy ⟨used.length, rest⟩ := by
  induction h generalizing rest with
  | empty => rfl
  | @append used bytes records r before stored ih =>
    rw [List.append_assoc, List.append_assoc, ih, List.map_append, List.append_assoc]
    congr 1
    -- what is left to see is the gap and the record that were appended last
    rcases Authoring.placeFor_cases used.length stored.length_le with ⟨hplace, hfit⟩ | hplace
    · rw [hplace, Nat.sub_self]
      show Cursor.items policy ⟨used.length, bytes ++ rest⟩ = _
      rw [Cursor.items_record stored hfit]
      simp [Bytes.zeros]
    · have hgap : used.length + remainingInSector used.length - used.length =
          remainingInSector used.length := by omega
      have hfit : bytes.length ≤ remainingInSector (used.length + remainingInSector used.length) := by
        rw [Authoring.remainingInSector_boundary]
        exact Nat.le_trans stored.length_le (by decide)
      rw [hplace, hgap, Cursor.items_padding, Cursor.items_record stored hfit]
      simp [Nat.add_assoc]

/-- The search for room passes over packed records to the end of the last of them. -/
theorem endOfRecordsFrom_append (h : Packed policy used records) (rest : Bytes) :
    Authoring.endOfRecordsFrom 0 0 (used ++ rest) =
      Authoring.endOfRecordsFrom used.length used.length rest := by
  induction h generalizing rest with
  | empty => rfl
  | @append used bytes records r before stored ih =>
    rw [List.append_assoc, List.append_assoc, ih, Authoring.endOfRecordsFrom_zeros,
      Authoring.endOfRecordsFrom_record stored]
    simp only [List.length_append, Bytes.length_zeros]

end Packed

end Ecma119
