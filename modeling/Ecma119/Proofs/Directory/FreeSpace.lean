import Ecma119.Proofs.Directory.Appending
import Mathlib.Data.Set.Basic
import Mathlib.Order.Bounds.Defs

/-!
# Free space in a directory

Whatever an extent holds, the search for room ends at a place behind which there are zeros only. A record
that is appended goes to the first place from there on where it does not cross a sector boundary
(`placeFor_le`), so that it is written over zeros and nothing else is touched. A call that fails leaves
everything as it was.
-/

namespace Ecma119.Authoring

variable {extent : Bytes} {offset stop size length : Nat} {r : DirectoryRecord}

/-- So many bytes lie in an extent of `size` bytes from `offset` on, and in one sector. -/
structure HasRoom (size length offset : Nat) : Prop where
  inside : offset + length ≤ size
  oneSector : offset % sectorSize + length ≤ sectorSize

/-- The places from `stop` on where so many bytes have room. A record goes to the first of them. -/
def places (size length stop : Nat) : Set Nat := {offset | stop ≤ offset ∧ HasRoom size length offset}

/-- The bytes have been written over zeros, in one sector and with zeros behind them, and nothing else
has changed. -/
structure FillsZeros (before : Bytes) (offset : Nat) (bytes after : Bytes) : Prop where
  hasRoom : HasRoom before.length bytes.length offset
  length_eq : after.length = before.length
  written : after.slice offset bytes.length = bytes
  free : ∀ index, offset ≤ index → index < offset + bytes.length → before[index]? = some 0
  behind : ∀ index, offset + bytes.length ≤ index → index < after.length → after[index]? = some 0
  kept : ∀ index, index < offset ∨ offset + bytes.length ≤ index → after[index]? = before[index]?

/-- At no earlier place does a record fit into one sector: `placeFor` gives the least there is behind
`stop`. -/
theorem placeFor_le (hstop : stop ≤ offset) (h : offset % sectorSize + length ≤ sectorSize) :
    placeFor stop length ≤ offset := by
  unfold placeFor remainingInSector alignToSector sectorSize at *
  split
  · omega
  · exact hstop

/-- A record that is not too long goes to the first place where it has room, if there is one. -/
theorem isLeast_placeFor (hlength : length ≤ 255) :
    IsLeast (places size length stop) offset ↔
      offset = placeFor stop length ∧ placeFor stop length + length ≤ size := by
  have hfit := fits_placeFor stop hlength
  have hone : placeFor stop length % sectorSize + length ≤ sectorSize := by
    unfold remainingInSector sectorSize at *
    omega
  constructor
  · rintro ⟨⟨hle, hinside, hsector⟩, hleast⟩
    have hplace := placeFor_le hle hsector
    have hroom : placeFor stop length + length ≤ size := by omega
    exact ⟨Nat.le_antisymm (hleast ⟨le_placeFor stop hlength, hroom, hone⟩) hplace, hroom⟩
  · rintro ⟨rfl, hroom⟩
    refine ⟨⟨le_placeFor stop hlength, hroom, hone⟩, ?_⟩
    rintro other ⟨hle, -, hsector⟩
    exact placeFor_le hle hsector

/-- From the place of a record on, an extent has zeros only, so that the record hides nothing. -/
theorem zero_of_endOfRecords (h : endOfRecords extent = .ok stop) {index : Nat}
    (hbehind : stop ≤ index) (hinside : index < extent.length) : extent[index]? = some 0 := by
  obtain ⟨free, hfree⟩ := zeros_behind_endOfRecords h hbehind
  have hlength := congrArg List.length hfree
  rw [List.length_drop, Bytes.length_zeros] at hlength
  rw [← Nat.add_zero index, ← List.getElem?_drop, hfree, Bytes.zeros, List.getElem?_replicate,
    if_pos (by omega)]

/-- What a call writes that succeeds: the bytes of its record, in the place of zeros. -/
theorem fillsZeros_of_addRecord {extent' : Bytes}
    (h : (addRecord r).run.run extent = (.ok offset, extent')) :
    ∃ bytes, r.encode = .ok bytes ∧ FillsZeros extent offset bytes extent' := by
  obtain ⟨bytes, stop, hencode, hstop, rfl, hroom, rfl⟩ := addRecord_ok h
  have hmax := (DirectoryRecord.storedAs_of_encode .strict hencode).length_le
  have hbefore := le_placeFor stop hmax
  have hlength := Bytes.length_put hroom
  refine ⟨bytes, hencode, ((isLeast_placeFor hmax).mpr ⟨rfl, hroom⟩).1.2, hlength,
    Bytes.slice_put_self (by omega) rfl, ?_, ?_, ?_⟩
  · intro index hfrom hto
    exact zero_of_endOfRecords hstop (by omega) (by omega)
  · intro index hfrom hto
    rw [hlength] at hto
    rw [Bytes.getElem?_put_of_apart hroom (.inr hfrom)]
    exact zero_of_endOfRecords hstop (by omega) hto
  · intro index hapart
    exact Bytes.getElem?_put_of_apart hroom hapart

/-- **Appending is atomic and fills free space only.** For any record and any bytes: a call that fails
changes nothing. A call that succeeds writes the record over zeros, in one sector of the extent and with
nothing but zeros behind it, and changes nothing else. Where the record can be written and the search for
room comes to a place, the record goes to the first place from there on where it has room, and the extent
is full exactly if there is none. -/
theorem addRecord_first_room (r : DirectoryRecord) (extent : Bytes) :
    let run := (addRecord r).run.run extent
    (∀ cause, run.1 = .error cause → run.2 = extent) ∧
    (∀ offset, run.1 = .ok offset →
      ∃ bytes, r.encode = .ok bytes ∧ FillsZeros extent offset bytes run.2) ∧
    ∀ bytes stop, r.encode = .ok bytes → endOfRecords extent = .ok stop →
      (run.1 = .error .directoryFull ↔ places extent.length bytes.length stop = ∅) ∧
      ∀ offset, run.1 = .ok offset ↔ IsLeast (places extent.length bytes.length stop) offset := by
  refine ⟨fun cause h => addRecord_error (Prod.ext h rfl), fun offset h =>
    fillsZeros_of_addRecord (Prod.ext h rfl), fun bytes stop hencode hstop => ?_⟩
  have hmax := (DirectoryRecord.storedAs_of_encode .strict hencode).length_le
  simp only [run_addRecord, hencode, hstop, isLeast_placeFor hmax]
  by_cases hroom : extent.length < placeFor stop bytes.length + bytes.length
  · have hnone : places extent.length bytes.length stop = ∅ := by
      refine Set.eq_empty_iff_forall_notMem.mpr ?_
      rintro offset ⟨hle, hinside, hsector⟩
      have hplace := placeFor_le hle hsector
      omega
    rw [if_pos hroom, hnone]
    refine ⟨⟨fun _ => rfl, fun _ => rfl⟩, fun offset => ⟨fun h => (nomatch h), ?_⟩⟩
    rintro ⟨-, hinside⟩
    omega
  · rw [if_neg hroom]
    have hplace : IsLeast (places extent.length bytes.length stop) (placeFor stop bytes.length) :=
      (isLeast_placeFor hmax).mpr ⟨rfl, Nat.le_of_not_lt hroom⟩
    refine ⟨⟨fun h => (nomatch h), fun hnone => ?_⟩, fun offset => ⟨fun h => ?_, fun h => ?_⟩⟩
    · rw [hnone] at hplace
      exact hplace.1.elim
    · cases h
      exact ⟨rfl, Nat.le_of_not_lt hroom⟩
    · rw [h.1]

end Ecma119.Authoring
