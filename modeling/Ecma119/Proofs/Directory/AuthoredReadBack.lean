import Ecma119.Proofs.Directory.Packed
import Ecma119.Proofs.Run

/-!
# Authored directories read back

An extent that was begun as a directory and then appended to holds its own record, its parent's, and
the records whose calls succeeded, in the order of the calls and at the offsets that the calls gave,
and a walk over it gives nothing else. `Authored` is the invariant: packed records with nothing but
zeros behind them. It holds of a cleared extent, every call keeps it, and so every run of calls does.
-/

namespace Ecma119

namespace Authoring

/-! ## Single calls -/

/-- What appending a record comes to, step by step: it is encoded, its place is found, and it is written
if it fits. -/
theorem run_addRecord (r : DirectoryRecord) (extent : Bytes) :
    (addRecord r).run.run extent =
      match r.encode with
      | .error cause => (.error cause, extent)
      | .ok bytes =>
        match endOfRecords extent with
        | .error cause => (.error cause, extent)
        | .ok stop =>
          if extent.length < placeFor stop bytes.length + bytes.length then
            (.error .directoryFull, extent)
          else (.ok (placeFor stop bytes.length), extent.put (placeFor stop bytes.length) bytes) := by
  rw [addRecord]
  cases r.encode with
  | error cause => rfl
  | ok bytes =>
    rw [run_bind_ok (run_liftM _), run_bind_ok run_get]
    cases endOfRecords extent with
    | error cause => rfl
    | ok stop =>
      rw [run_bind_ok (run_liftM _)]
      dsimp only
      split
      · rfl
      · rfl

/-- A record that is appended goes to the place behind the last one, if there is room. -/
theorem addRecord_ok {r : DirectoryRecord} {extent extent' : Bytes} {offset : Nat}
    (h : (addRecord r).run.run extent = (.ok offset, extent')) :
    ∃ bytes stop, r.encode = .ok bytes ∧ endOfRecords extent = .ok stop ∧
      offset = placeFor stop bytes.length ∧ offset + bytes.length ≤ extent.length ∧
      extent' = extent.put offset bytes := by
  rw [run_addRecord] at h
  split at h
  · cases h
  · next bytes hencode =>
    split at h
    · cases h
    · next stop hstop =>
      split at h
      · cases h
      · next hroom =>
        cases h
        exact ⟨bytes, stop, hencode, hstop, rfl, Nat.le_of_not_lt hroom, rfl⟩

/-- A call that fails leaves the extent alone, whether the record is unfit or there is no room. -/
theorem addRecord_error {r : DirectoryRecord} {extent extent' : Bytes} {cause : FormatError}
    (h : (addRecord r).run.run extent = (.error cause, extent')) : extent' = extent := by
  rw [run_addRecord] at h
  split at h
  · cases h
    rfl
  · split at h
    · cases h
      rfl
    · split at h
      · cases h
        rfl
      · cases h

/-- A call that appends a record. -/
inductive Call where
  /-- A record of these parts. -/
  | ofParts (name : Bytes) (extent size : UInt32) (flags : FileFlags) (systemUse : Bytes)
  /-- This record. -/
  | ofRecord (record : DirectoryRecord)

namespace Call

def record : Call → DirectoryRecord
  | ofParts name extent size flags systemUse =>
    { DirectoryRecord.ofExtent name extent size flags with systemUse }
  | ofRecord record => record

/-- Makes the call on an extent: it gives the place of the record, or fails and leaves the extent alone.
-/
def perform : Call → Authoring Nat
  | ofParts name extent size flags systemUse => addEntry name extent size flags systemUse
  | ofRecord record => addRecord record

/-- A call appends its record unless it refuses the identifier first, which leaves the extent alone. -/
theorem run_perform (call : Call) (extent : Bytes) :
    call.perform.run.run extent = (addRecord call.record).run.run extent ∨
      call.perform.run.run extent = (.error .invalidName, extent) := by
  cases call with
  | ofRecord record => exact .inl rfl
  | ofParts name lsn size flags systemUse =>
    by_cases hname : name = []
    · right
      subst hname
      rfl
    · left
      show (addEntry name lsn size flags systemUse).run.run extent = _
      rw [addEntry, if_neg hname]
      rfl

end Call

/-! ## Runs of calls -/

/-- Makes calls one after the other, those behind a failure too: what each of them comes to, and the
extent behind them. -/
def performAll : List Call → Bytes → List (Except FormatError Nat) × Bytes
  | [], extent => ([], extent)
  | call :: calls, extent =>
    let made := call.perform.run.run extent
    let later := performAll calls made.2
    (made.1 :: later.1, later.2)

/-- The records whose calls succeeded, as they read after they were written, with their offsets. -/
def added : List Call → List (Except FormatError Nat) → List (Nat × DirectoryRecord)
  | call :: calls, .ok offset :: outcomes => (offset, call.record.recorded) :: added calls outcomes
  | _ :: calls, .error _ :: outcomes => added calls outcomes
  | _, _ => []

/-- Where all calls succeed, all their records are added, in the order of the calls. -/
theorem map_snd_added {calls : List Call} {extent : Bytes}
    (h : ∀ outcome ∈ (performAll calls extent).1, ∃ offset, outcome = .ok offset) :
    (added calls (performAll calls extent).1).map Prod.snd =
      calls.map fun call => call.record.recorded := by
  induction calls generalizing extent with
  | nil => rfl
  | cons call calls ih =>
    rw [performAll] at h ⊢
    obtain ⟨⟨offset, hoffset⟩, hcalls⟩ := List.forall_mem_cons.mp h
    have hcall : (call.perform.run.run extent).1 = .ok offset := hoffset
    simp [hcall, added, ih hcalls]

/-! ## The invariant -/

/-- An extent whose records are packed and end at `stop`, with nothing but zeros behind them. -/
def Authored (policy : EndianPolicy) (extent : Bytes) (stop : Nat)
    (records : List (Nat × DirectoryRecord)) : Prop :=
  ∃ used free, extent = used ++ Bytes.zeros free ∧ used.length = stop ∧ Packed policy used records

namespace Authored

variable {policy : EndianPolicy} {extent extent' : Bytes} {stop : Nat}
variable {records : List (Nat × DirectoryRecord)}

/-- An extent of zeros is one in which no record has been authored yet. -/
theorem zeros (policy : EndianPolicy) (n : Nat) : Authored policy (Bytes.zeros n) 0 [] :=
  ⟨[], n, rfl, rfl, .empty⟩

/-- A walk over the extent gives the records and nothing else, each with the place where it was put. -/
theorem recordsOf_eq (h : Authored policy extent stop records) :
    recordsOf policy extent = records.map .ok := by
  obtain ⟨used, free, rfl, rfl, hpacked⟩ := h
  rw [recordsOf, Cursor.ofExtent, hpacked.items_append, Cursor.items_zeros, List.append_nil]

/-- The search for room comes to the end of the last record, as everything behind that is zeros. -/
theorem endOfRecords_eq (h : Authored policy extent stop records) :
    endOfRecords extent = .ok stop := by
  obtain ⟨used, free, rfl, rfl, hpacked⟩ := h
  rw [endOfRecords, hpacked.endOfRecordsFrom_append, ← List.append_nil (Bytes.zeros free),
    endOfRecordsFrom_zeros, endOfRecordsFrom]

/-- Writing behind the packed bytes fills up the gap before it with zeros and leaves zeros behind. -/
theorem put_append_zeros {used bytes : Bytes} {free offset : Nat} (hoffset : used.length ≤ offset)
    (hroom : offset + bytes.length ≤ (used ++ Bytes.zeros free).length) :
    (used ++ Bytes.zeros free).put offset bytes =
      used ++ Bytes.zeros (offset - used.length) ++ bytes ++
        Bytes.zeros (used.length + free - (offset + bytes.length)) := by
  have hroom' : offset + bytes.length ≤ used.length + free := by simpa using hroom
  have htake : (used ++ Bytes.zeros free).take offset =
      used ++ Bytes.zeros (offset - used.length) := by
    rw [List.take_append, List.take_of_length_le hoffset, Bytes.zeros, List.take_replicate,
      Nat.min_eq_left (by omega), Bytes.zeros]
  have hdrop : (used ++ Bytes.zeros free).drop (offset + bytes.length) =
      Bytes.zeros (used.length + free - (offset + bytes.length)) := by
    rw [List.drop_append, List.drop_of_length_le (by omega), List.nil_append, Bytes.zeros,
      List.drop_replicate, Bytes.zeros]
    congr 1
    omega
  rw [Bytes.put, htake, hdrop]

/-- A record that is appended is the last one from then on. This is the step that `performAll` repeats.
-/
theorem addRecord {r : DirectoryRecord} {offset : Nat} (h : Authored policy extent stop records)
    (hadd : (Authoring.addRecord r).run.run extent = (.ok offset, extent')) :
    offset = placeFor stop r.encodedLength ∧
      Authored policy extent' (offset + r.encodedLength) (records ++ [(offset, r.recorded)]) := by
  obtain ⟨bytes, stop', hencode, hstop, rfl, hroom, rfl⟩ := addRecord_ok hadd
  obtain rfl : stop = stop' := by simpa [h.endOfRecords_eq] using hstop
  have hstored := DirectoryRecord.storedAs_of_encode policy hencode
  have hlength := DirectoryRecord.length_of_encode hencode
  obtain ⟨used, free, rfl, rfl, hpacked⟩ := h
  have hplace := le_placeFor used.length hstored.length_le
  refine ⟨by rw [hlength], _, _, put_append_zeros hplace hroom, ?_, hpacked.append hstored⟩
  simp only [List.length_append, Bytes.length_zeros]
  omega

/-- A call appends its record, or it fails and leaves everything as it was, so that `Authored` is kept.
-/
theorem perform (h : Authored policy extent stop records) (call : Call) :
    (∃ offset stop', (call.perform.run.run extent).1 = .ok offset ∧
      Authored policy (call.perform.run.run extent).2 stop'
        (records ++ [(offset, call.record.recorded)])) ∨
    (∃ cause, call.perform.run.run extent = (.error cause, extent)) := by
  rcases call.run_perform extent with hrun | hrun
  · rw [hrun]
    cases hadd : (Authoring.addRecord call.record).run.run extent with
    | mk outcome extent' =>
      cases outcome with
      | ok offset => exact .inl ⟨offset, _, rfl, (h.addRecord hadd).2⟩
      | error cause =>
        obtain rfl := addRecord_error hadd
        exact .inr ⟨cause, rfl⟩
  · exact .inr ⟨_, hrun⟩

/-- What one call keeps, a run of calls keeps: the records added so far are all that a walk finds. -/
theorem performAll (h : Authored policy extent stop records) (calls : List Call) :
    ∃ stop', Authored policy (Authoring.performAll calls extent).2 stop'
      (records ++ added calls (Authoring.performAll calls extent).1) := by
  induction calls generalizing extent stop records with
  | nil => exact ⟨stop, by simpa [Authoring.performAll, added] using h⟩
  | cons call calls ih =>
    rw [Authoring.performAll]
    rcases h.perform call with ⟨offset, stop', houtcome, hnext⟩ | ⟨cause, hrun⟩
    · simp only [houtcome, added]
      simpa using ih hnext
    · simp only [hrun, added]
      exact ih h

end Authored

/-- A record of a one-byte identifier and nothing else takes 34 bytes, as those of dots do. -/
private theorem encodedLength_ofExtent_singleton (b : UInt8) (lsn size : UInt32)
    (flags : FileFlags) : (DirectoryRecord.ofExtent [b] lsn size flags).encodedLength = 34 := by
  simp [DirectoryRecord.encodedLength, DirectoryRecord.ofExtent, DirectoryRecord.sizeFor, padEven,
    DirectoryRecord.headLength]

/-- Such a record reads as it is: a name of one byte needs no padding, and its length is known. -/
private theorem recorded_ofExtent_singleton (b : UInt8) (lsn size : UInt32) (flags : FileFlags) :
    (DirectoryRecord.ofExtent [b] lsn size flags).recorded = .ofExtent [b] lsn size flags := by
  rw [DirectoryRecord.recorded, encodedLength_ofExtent_singleton]
  simp [DirectoryRecord.ofExtent, DirectoryRecord.sizeFor, padEven, DirectoryRecord.headLength,
    Bytes.zeros]

private theorem addEntry_singleton (b : UInt8) (lsn size : UInt32) (flags : FileFlags) :
    addEntry [b] lsn size flags [] = addRecord (.ofExtent [b] lsn size flags) := by
  rw [addEntry, if_neg (List.cons_ne_nil b [])]
  rfl

theorem isMultiExtent_directory : FileFlags.directory.isMultiExtent = false := by decide

/-- A directory that has been begun holds its own record and that of its parent, and zeros behind them.
-/
theorem authored_beginDirectory (policy : EndianPolicy)
    {selfExtent selfSize parentExtent parentSize : UInt32} {extent start : Bytes}
    (h : (beginDirectory selfExtent selfSize parentExtent parentSize).run.run extent =
      (.ok (), start)) :
    Authored policy start 68
      [(0, .ofExtent [0x00] selfExtent selfSize .directory),
        (34, .ofExtent [0x01] parentExtent parentSize .directory)] := by
  rw [beginDirectory, run_bind_ok (run_modify _), addEntry_singleton, addEntry_singleton] at h
  obtain ⟨first, between, hfirst, hrest⟩ := run_bind_eq_ok h
  obtain ⟨second, after, hsecond, hdone⟩ := run_bind_eq_ok hrest
  cases hdone
  obtain ⟨rfl, hafter⟩ := (Authored.zeros policy extent.length).addRecord hfirst
  rw [recorded_ofExtent_singleton, encodedLength_ofExtent_singleton] at hafter
  obtain ⟨rfl, hafter⟩ := hafter.addRecord hsecond
  rw [recorded_ofExtent_singleton, encodedLength_ofExtent_singleton] at hafter
  exact hafter

/-! ## Reading back -/

/-- **An authored directory reads back as what was authored.** Whatever extent a directory was begun
in, and whatever calls were made then, succeeding or failing in any order: a walk over the extent gives
the record of the directory, that of its parent and the records whose calls succeeded, each at the
offset that its call gave and as it was written. It gives nothing else, and no fault. -/
theorem recordsOf_performAll (policy : EndianPolicy)
    {selfExtent selfSize parentExtent parentSize : UInt32} {extent start : Bytes}
    (h : (beginDirectory selfExtent selfSize parentExtent parentSize).run.run extent =
      (.ok (), start)) (calls : List Call) :
    recordsOf policy (performAll calls start).2 =
      ((0, .ofExtent [0x00] selfExtent selfSize .directory) ::
        (34, .ofExtent [0x01] parentExtent parentSize .directory) ::
          added calls (performAll calls start).1).map .ok := by
  obtain ⟨stop, hrun⟩ := (authored_beginDirectory policy h).performAll calls
  exact hrun.recordsOf_eq

/-- An extent that is no whole number of sectors and held other bytes before. The first call has no
identifier and the third does not fit, which does not keep a smaller record from being appended. -/
theorem recordsOf_performAll_partialSector :
    let begun := (beginDirectory 20 150 18 2048).run.run (List.replicate 150 0xFF)
    begun.1 = .ok () ∧
      recordsOf .strict
        (performAll
          [.ofParts [] 24 5 ⟨0⟩ [], .ofParts [0x41] 24 5 ⟨0⟩ [1, 2, 3],
            .ofRecord (.ofExtent (List.replicate 20 0x42) 25 6 ⟨0⟩),
            .ofRecord (.ofExtent [0x42] 25 6 ⟨0⟩)] begun.2).2 =
        List.map .ok
          [(0, .ofExtent [0x00] 20 150 .directory), (34, .ofExtent [0x01] 18 2048 .directory),
            (68, { DirectoryRecord.ofExtent [0x41] 24 5 ⟨0⟩ with
              length := 38, systemUse := [1, 2, 3, 0] }),
            (106, .ofExtent [0x42] 25 6 ⟨0⟩)] := by
  intro begun
  have hbegun : begun.1 = .ok () := by
    have hvalue : begun.1.toOption = some () := by decide +kernel
    cases houtcome : begun.1 with
    | ok => rfl
    | error cause =>
      rw [houtcome] at hvalue
      cases hvalue
  refine ⟨hbegun, (recordsOf_performAll .strict (Prod.ext hbegun rfl) _).trans ?_⟩
  refine congrArg (List.map Except.ok) ?_
  decide +kernel

end Authoring

end Ecma119
