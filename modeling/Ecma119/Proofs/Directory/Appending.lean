import Ecma119.Proofs.Bytes
import Ecma119.Proofs.Directory.AuthoredReadBack

/-!
# Appending to any directory

An extent that was not authored here may have anything in its padding. A walk that gives its records does
not look at padding; the search for room does, and takes a byte in it that is not zero for a record.
A record that is appended is seen behind the others exactly if it was put where the last of them ends
(`Cursor.endFrom`) or at the start of a later sector (`place_of_seen`, `seen_of_place`).
-/

namespace Ecma119

namespace Cursor

variable {policy : EndianPolicy} {offset stop : Nat} {data front rest : Bytes}

/-! ## What is passed over -/

/-- These bytes, which stand at `offset`, are passed over whatever follows them: they are none, or they
go up to the end of a sector. -/
structure IsPadding (offset : Nat) (front : Bytes) : Prop where
  boundary : front = [] ∨ (offset + front.length) % sectorSize = 0
  passed : ∀ rest, skipPadding ⟨offset, front ++ rest⟩ = skipPadding ⟨offset + front.length, rest⟩

theorem IsPadding.nil (offset : Nat) : IsPadding offset [] := ⟨.inl rfl, fun _ => rfl⟩

/-- A sector whose first byte is zero is passed over from there, and what comes next after it. -/
theorem IsPadding.sector {sector : Bytes} (hhead : sector.head? = some 0)
    (hlength : sector.length = remainingInSector offset)
    (h : IsPadding (offset + sector.length) front) : IsPadding offset (sector ++ front) where
  boundary := by
    right
    rw [List.length_append, ← Nat.add_assoc]
    rcases h.boundary with rfl | hboundary
    · rw [hlength, List.length_nil]
      unfold remainingInSector sectorSize
      omega
    · exact hboundary
  passed rest := by
    obtain ⟨tail, rfl⟩ : ∃ tail, sector = 0 :: tail := by
      cases sector with
      | nil => cases hhead
      | cons b tail => exact ⟨tail, by rw [Option.some.inj hhead]⟩
    rw [List.append_assoc, List.cons_append, skipPadding_cons_zero, advance, ← hlength,
      ← List.cons_append, List.drop_left' rfl, h.passed, List.length_append, Nat.add_assoc]

/-- The first bytes of a sector that starts with a zero do so too. -/
theorem head?_take_eq_zero {n : Nat} (hn : 0 < n) (h : data.head? = some 0) :
    (data.take n).head? = some 0 := by
  rw [List.head?_take, if_neg (Nat.ne_of_gt hn), h]

/-- Where a walk stops in front of a byte, it has passed over padding and over nothing else. -/
theorem exists_padding {c : Cursor} {b : UInt8} {tail : Bytes}
    (h : c.skipPadding = ⟨stop, b :: tail⟩) :
    ∃ front, c.rest = front ++ b :: tail ∧ stop = c.offset + front.length ∧
      IsPadding c.offset front := by
  fun_induction skipPadding c with
  | case1 c _ hrest ih =>
    obtain ⟨front, hdrop, hstop, hpadding⟩ := ih h
    have hdrop : c.rest.drop (remainingInSector c.offset) = front ++ b :: tail := hdrop
    have hinside : remainingInSector c.offset ≤ c.rest.length := by
      have hlength := congrArg List.length hdrop
      rw [List.length_drop, List.length_append, List.length_cons] at hlength
      omega
    have hlength := List.length_take_of_le hinside
    refine ⟨c.rest.take (remainingInSector c.offset) ++ front, ?_, ?_, ?_⟩
    · rw [List.append_assoc, ← hdrop, List.take_append_drop]
    · rw [hstop, List.length_append, hlength]
      exact Nat.add_assoc ..
    · refine .sector (head?_take_eq_zero (remainingInSector_pos _) (by rw [hrest]; rfl)) hlength ?_
      rw [hlength]
      exact hpadding
  | case2 c hrest =>
    subst h
    exact ⟨[], rfl, rfl, .nil stop⟩

/-- A walk that finds nothing more stands before a zero, or at the end of the extent. -/
theorem eq_zero_of_items_eq_nil {b : UInt8} {tail : Bytes}
    (h : items policy ⟨offset, b :: tail⟩ = []) : b = 0 := by
  by_cases hb : b = 0
  · exact hb
  have hnext : next policy ⟨offset, b :: tail⟩ =
      (some (readRecord policy ⟨offset, b :: tail⟩ b.toNat).1,
        (readRecord policy ⟨offset, b :: tail⟩ b.toNat).2) := by
    rw [next, skipPadding_cons_of_ne_zero hb]
  rw [items_eq_cons hnext] at h
  cases h

/-- Where a walk finds nothing more, all bytes up to a later sector are padding, though they need not be
zeros. -/
theorem isPadding_of_items_eq_nil {n : Nat} (h : items policy ⟨offset, data⟩ = [])
    (hn : n ≤ data.length) (hboundary : (offset + n) % sectorSize = 0) :
    IsPadding offset (data.take n) := by
  induction n using Nat.strongRecOn generalizing offset data with
  | ind n ih =>
    by_cases hzero : n = 0
    · rw [hzero, List.take_zero]
      exact .nil offset
    have hpos := remainingInSector_pos offset
    have hle : remainingInSector offset ≤ n := by
      unfold remainingInSector sectorSize at *
      omega
    have hsector : (data.take (remainingInSector offset)).length = remainingInSector offset :=
      List.length_take_of_le (by omega)
    obtain ⟨b, tail, hdata⟩ := List.exists_cons_of_length_pos (by omega : 0 < data.length)
    rw [hdata] at h
    obtain rfl := eq_zero_of_items_eq_nil h
    have hdrop : items policy ⟨offset + remainingInSector offset,
        data.drop (remainingInSector offset)⟩ = [] := by
      rw [items_eq_of_skipPadding_eq (skipPadding_cons_zero offset tail), advance, ← hdata] at h
      exact h
    have hrest := ih (n - remainingInSector offset) (by omega) hdrop
      (by rw [List.length_drop]; omega) (by rw [← hboundary]; congr 1; omega)
    have htake : data.take n = data.take (remainingInSector offset) ++
        (data.drop (remainingInSector offset)).take (n - remainingInSector offset) := by
      rw [← List.take_add, Nat.add_sub_cancel' hle]
    rw [htake]
    refine .sector (head?_take_eq_zero hpos (by rw [hdata]; rfl)) hsector ?_
    rw [hsector]
    exact hrest

/-- A walk that stands before a zero in the last sector finds nothing more, whatever comes behind the
zero there. -/
theorem items_eq_nil_of_head (hhead : data.head? = some 0)
    (hlength : data.length ≤ remainingInSector offset) : items policy ⟨offset, data⟩ = [] := by
  cases data with
  | nil => cases hhead
  | cons b tail =>
    obtain rfl : b = 0 := Option.some.inj hhead
    rw [items_eq_of_skipPadding_eq (skipPadding_cons_zero offset tail), advance,
      List.drop_of_length_le hlength]
    exact items_zeros _ 0

/-! ## What has been seen -/

/-- Where the last of these records ends, or `start` if there is none. -/
def endFrom (start : Nat) (records : List (Nat × DirectoryRecord)) : Nat :=
  records.foldl (fun _ entry => entry.1 + entry.2.length.toNat) start

/-- A record that is read takes as many bytes as its first one says, and the walk goes on behind these.
-/
theorem of_readRecord {c c' : Cursor} {b : UInt8} {tail : Bytes} {place : Nat} {r : DirectoryRecord}
    (hrest : c.rest = b :: tail) (hb : b ≠ 0)
    (h : c.readRecord policy b.toNat = (.ok (place, r), c')) :
    place = c.offset ∧ c' = c.advance b.toNat ∧ b.toNat ≤ c.rest.length ∧
      StoredAs policy (c.rest.take b.toNat) r ∧ b.toNat ≤ remainingInSector place := by
  have hpos : 0 < b.toNat := Nat.pos_of_ne_zero fun hzero => hb (UInt8.toNat_inj.mp hzero)
  unfold readRecord at h
  dsimp only at h
  split at h
  · cases h
  next hfit =>
    split at h
    · next record hparse =>
      cases h
      have hlength : (c.rest.take b.toNat).length = b.toNat := by
        rw [List.length_take] at hfit ⊢
        omega
      have hfirst : (c.rest.take b.toNat).getD 0 0 = b := by
        rw [List.getD_eq_getElem?_getD, List.getElem?_take_of_lt hpos, hrest]
        rfl
      refine ⟨rfl, rfl, ?_, ⟨by rw [hfirst, hlength], hparse⟩, by omega⟩
      rw [← hlength]
      exact List.length_take_le' ..
    · cases h

/-- The next record stands behind padding, at the place that the walk gives with it, and the walk goes on
behind it. -/
theorem of_items_eq_cons {r : DirectoryRecord} {place : Nat} {more : List WalkItem}
    (h : items policy ⟨offset, data⟩ = .ok (place, r) :: more) :
    ∃ front bytes after, data = front ++ (bytes ++ after) ∧ IsPadding offset front ∧
      place = offset + front.length ∧ StoredAs policy bytes r ∧
      bytes.length ≤ remainingInSector place ∧
      more = items policy ⟨place + bytes.length, after⟩ := by
  rw [items] at h
  split at h
  · cases h
  next item c' hnext =>
    cases h
    obtain ⟨stop, behind, hskip⟩ : ∃ stop behind, skipPadding ⟨offset, data⟩ = ⟨stop, behind⟩ :=
      ⟨_, _, rfl⟩
    rw [next, hskip] at hnext
    cases behind with
    | nil => cases hnext
    | cons b tail =>
      have hread : readRecord policy ⟨stop, b :: tail⟩ b.toNat = (.ok (place, r), c') :=
        Prod.ext (Option.some.inj (Prod.mk.inj hnext).1) (Prod.mk.inj hnext).2
      have hb : b ≠ 0 := fun hzero =>
        rest_skipPadding_ne_zero ⟨offset, data⟩ tail (by rw [hskip, hzero])
      obtain ⟨rfl, rfl, hinside, hstored, hfit⟩ := of_readRecord rfl hb hread
      obtain ⟨front, hdata, hstop, hpadding⟩ := exists_padding hskip
      have hlength := List.length_take_of_le hinside
      refine ⟨front, _, (b :: tail).drop b.toNat, ?_, hpadding, hstop, hstored, ?_, ?_⟩
      · rw [List.take_append_drop]
        exact hdata
      · rwa [hlength]
      · rw [hlength]
        rfl

/-- A walk sees the records where they are, whatever comes behind the last of them. -/
theorem of_items_eq_append {records : List (Nat × DirectoryRecord)} {more : List WalkItem}
    (h : items policy ⟨offset, data⟩ = records.map .ok ++ more) :
    ∃ used after, data = used ++ after ∧ offset + used.length = endFrom offset records ∧
      more = items policy ⟨offset + used.length, after⟩ ∧
      ∀ rest, items policy ⟨offset, used ++ rest⟩ =
        records.map .ok ++ items policy ⟨offset + used.length, rest⟩ := by
  induction records generalizing offset data with
  | nil => exact ⟨[], data, rfl, rfl, h.symm, fun _ => rfl⟩
  | cons entry records ih =>
    obtain ⟨place, r⟩ := entry
    obtain ⟨front, bytes, behind, hdata, hpadding, hplace, hstored, hfit, hmore⟩ :=
      of_items_eq_cons h
    obtain ⟨used, after, hbehind, hend, hafter, hsame⟩ := ih hmore.symm
    have hlength := hstored.length_eq
    have htotal : offset + (front ++ (bytes ++ used)).length = place + bytes.length + used.length := by
      rw [hplace, List.length_append, List.length_append]
      omega
    refine ⟨front ++ (bytes ++ used), after, ?_, ?_, ?_, fun rest => ?_⟩
    · rw [hdata, hbehind]
      simp only [List.append_assoc]
    · rw [htotal, hend, ← hlength]
      rfl
    · rw [htotal, hafter]
    · have hfront : items policy ⟨offset, front ++ (bytes ++ used) ++ rest⟩ =
          items policy ⟨place, bytes ++ (used ++ rest)⟩ := by
        rw [hplace, List.append_assoc, List.append_assoc]
        exact items_eq_of_skipPadding_eq (hpadding.passed _)
      rw [htotal, hfront, items_record hstored hfit, hsame]
      rfl

/-- No record is seen before the place where the walk stands, as a cursor only moves on. -/
theorem le_of_mem_of_items_eq {records : List (Nat × DirectoryRecord)}
    (h : items policy ⟨offset, data⟩ = records.map .ok) : ∀ entry ∈ records, offset ≤ entry.1 := by
  induction records generalizing offset data with
  | nil => exact List.forall_mem_nil _
  | cons entry records ih =>
    obtain ⟨front, bytes, behind, -, -, hplace, -, -, hmore⟩ := of_items_eq_cons h
    refine List.forall_mem_cons.mpr ⟨by omega, fun later hlater => ?_⟩
    have hle := ih hmore.symm later hlater
    omega

end Cursor

namespace Authoring

variable {policy : EndianPolicy} {extent extent' data : Bytes} {offset lastEnd stop : Nat}
variable {records : List (Nat × DirectoryRecord)} {r : DirectoryRecord}

/-! ## Where the search for room ends -/

/-- Behind the place to which the search for room comes there are zeros only. The induction follows the
search. -/
theorem zeros_behind_endOfRecordsFrom (hle : lastEnd ≤ offset)
    (h : endOfRecordsFrom offset lastEnd data = .ok stop) :
    lastEnd ≤ stop ∧ ∃ free, data.drop (stop - offset) = Bytes.zeros free := by
  fun_induction endOfRecordsFrom offset lastEnd data with
  | case1 offset lastEnd =>
    cases h
    exact ⟨Nat.le_refl _, 0, List.drop_nil⟩
  | case2 offset lastEnd rest ih =>
    obtain ⟨hstop, free, hdrop⟩ := ih (by omega) h
    refine ⟨hstop, ?_⟩
    by_cases hbehind : offset < stop
    · refine ⟨free, ?_⟩
      rw [show stop - offset = stop - (offset + 1) + 1 by omega, List.drop_succ_cons]
      exact hdrop
    · rw [Nat.sub_eq_zero_of_le (by omega), List.drop_zero] at hdrop ⊢
      exact ⟨free + 1, by rw [hdrop]; rfl⟩
  | case3 => cases h
  | case4 offset lastEnd b rest hb tailLength hlong ih =>
    obtain ⟨hstop, free, hdrop⟩ := ih (Nat.le_refl _) h
    have hpos : 0 < b.toNat := Nat.pos_of_ne_zero fun hzero => hb (UInt8.toNat_inj.mp hzero)
    refine ⟨by omega, free, ?_⟩
    rw [List.drop_drop] at hdrop
    rw [show stop - offset = tailLength + (stop - (offset + b.toNat)) + 1 by omega,
      List.drop_succ_cons]
    exact hdrop

/-- From the end of the records on there are only zeros, so that a new record destroys nothing. -/
theorem zeros_behind_endOfRecords {place : Nat} (h : endOfRecords extent = .ok stop)
    (hplace : stop ≤ place) : ∃ free, extent.drop place = Bytes.zeros free := by
  obtain ⟨-, free, hfree⟩ := zeros_behind_endOfRecordsFrom (Nat.le_refl 0) h
  refine ⟨free - (place - stop), ?_⟩
  rw [Nat.sub_zero] at hfree
  rw [← Nat.add_sub_cancel' hplace, ← List.drop_drop, hfree, Bytes.zeros, List.drop_replicate,
    Nat.add_sub_cancel_left]
  rfl

/-- Of these bytes, the first of which stands at `offset`, those that belong to none of the records are
zero. -/
def ZeroPadded (offset : Nat) (data : Bytes) (records : List (Nat × DirectoryRecord)) : Prop :=
  ∀ index < data.length,
    (∀ entry ∈ records,
      ¬ (entry.1 ≤ offset + index ∧ offset + index < entry.1 + entry.2.length.toNat)) →
    data[index]? = some 0

/-- Where padding is zeros, the search for room comes to the end of the last record that is seen. -/
theorem endOfRecordsFrom_of_zeroPadded (lastEnd : Nat)
    (hread : Cursor.items policy ⟨offset, data⟩ = records.map .ok)
    (hzero : ZeroPadded offset data records) :
    endOfRecordsFrom offset lastEnd data = .ok (Cursor.endFrom lastEnd records) := by
  induction records generalizing offset data lastEnd with
  | nil =>
    rw [Bytes.eq_zeros fun index hindex => hzero index hindex (List.forall_mem_nil _),
      ← List.append_nil (Bytes.zeros _), endOfRecordsFrom_zeros, endOfRecordsFrom]
    rfl
  | cons entry records ih =>
    obtain ⟨place, r⟩ := entry
    obtain ⟨front, bytes, behind, rfl, -, hplace, hstored, -, hmore⟩ := Cursor.of_items_eq_cons hread
    have hlength := hstored.length_eq
    have hlater := Cursor.le_of_mem_of_items_eq hmore.symm
    have hfront : front = Bytes.zeros front.length := by
      refine Bytes.eq_zeros fun index hindex => ?_
      have hout := hzero index (by rw [List.length_append]; omega)
      rw [List.getElem?_append_left hindex] at hout
      refine hout (List.forall_mem_cons.mpr ⟨by dsimp only; omega, fun later hmem => ?_⟩)
      have hle := hlater later hmem
      omega
    rw [hfront, endOfRecordsFrom_zeros, ← hplace, endOfRecordsFrom_record hstored]
    refine (ih _ hmore.symm fun index hindex hout => ?_).trans ?_
    · have hsame : (front ++ (bytes ++ behind))[front.length + (bytes.length + index)]? =
          behind[index]? := by
        rw [List.getElem?_append_right (Nat.le_add_right ..), Nat.add_sub_cancel_left,
          List.getElem?_append_right (Nat.le_add_right ..), Nat.add_sub_cancel_left]
      rw [← hsame]
      apply hzero
      · rw [List.length_append, List.length_append]
        omega
      · refine List.forall_mem_cons.mpr ⟨by dsimp only; omega, fun later hmem hinside => ?_⟩
        exact hout later hmem (by omega)
    · rw [← hlength]
      rfl

/-! ## Records that are appended -/

/-- The place is the end of the last of these records, or the start of a later sector. -/
def IsNext (records : List (Nat × DirectoryRecord)) (offset : Nat) : Prop :=
  offset = Cursor.endFrom 0 records ∨
    Cursor.endFrom 0 records < offset ∧ offset % sectorSize = 0

instance (records : List (Nat × DirectoryRecord)) (offset : Nat) :
    Decidable (IsNext records offset) :=
  inferInstanceAs (Decidable (_ ∨ _))

/-- A record that is seen behind others stands where these end, or at the start of a later sector. -/
theorem place_of_seen (h : recordsOf policy extent = records.map .ok ++ [.ok (offset, r)]) :
    IsNext records offset := by
  obtain ⟨used, after, -, hend, hmore, -⟩ := Cursor.of_items_eq_append h
  obtain ⟨front, bytes, behind, -, hpadding, hplace, -⟩ := Cursor.of_items_eq_cons hmore.symm
  rw [hend] at hplace hpadding
  rcases hpadding.boundary with rfl | hboundary
  · exact .inl hplace
  · rw [← hplace] at hboundary
    unfold IsNext
    omega

/-- A record that is appended where the next one would be looked for is seen behind the others. -/
theorem seen_of_place (hread : recordsOf policy extent = records.map .ok)
    (hadd : (addRecord r).run.run extent = (.ok offset, extent'))
    (hplace : IsNext records offset) :
    recordsOf policy extent' = records.map .ok ++ [.ok (offset, r.recorded)] := by
  obtain ⟨bytes, stop, hencode, hstop, hoffset, hroom, rfl⟩ := addRecord_ok hadd
  have hstored := DirectoryRecord.storedAs_of_encode policy hencode
  have hseen : Cursor.items policy ⟨0, extent⟩ = records.map .ok ++ [] := by
    rw [List.append_nil]
    exact hread
  obtain ⟨used, after, rfl, hend, hnil, hsame⟩ := Cursor.of_items_eq_append hseen
  rw [Nat.zero_add] at hend hnil
  rw [IsNext, ← hend] at hplace
  rw [List.length_append] at hroom
  have hle : used.length ≤ offset := by omega
  -- what is between the records and the new one is passed over
  have hpadding : Cursor.IsPadding used.length (after.take (offset - used.length)) := by
    rcases hplace with rfl | ⟨-, hboundary⟩
    · rw [Nat.sub_self, List.take_zero]
      exact .nil _
    · exact Cursor.isPadding_of_items_eq_nil hnil.symm (by omega) (by rwa [Nat.add_sub_cancel' hle])
  have hstand : used.length + (after.take (offset - used.length)).length = offset := by
    rw [List.length_take_of_le (by omega), Nat.add_sub_cancel' hle]
  -- the new one does not cross a boundary, and there is nothing behind it
  have hfit : bytes.length ≤ remainingInSector offset := by
    rw [hoffset]
    exact fits_placeFor stop hstored.length_le
  obtain ⟨free, hfree⟩ : ∃ free, (used ++ after).drop (offset + bytes.length) = Bytes.zeros free := by
    have hbehind := le_placeFor stop hstored.length_le
    exact zeros_behind_endOfRecords hstop (by omega)
  have hput : (used ++ after).put offset bytes =
      used ++ (after.take (offset - used.length) ++ (bytes ++ Bytes.zeros free)) := by
    rw [Bytes.put, hfree, List.take_append, List.take_of_length_le hle]
    simp only [List.append_assoc]
  rw [hput, recordsOf, Cursor.ofExtent, hsame, Nat.zero_add,
    Cursor.items_eq_of_skipPadding_eq (hpadding.passed _), hstand, Cursor.items_record hstored hfit,
    Cursor.items_zeros]

/-- Where padding is zeros, skipping it byte by byte and by sectors leads to the same place, and a record
is appended there. -/
theorem place_of_zeroPadded (hread : recordsOf policy extent = records.map .ok)
    (hadd : (addRecord r).run.run extent = (.ok offset, extent'))
    (hzero : ZeroPadded 0 extent records) :
    IsNext records offset := by
  obtain ⟨bytes, stop, hencode, hstop, rfl, -, -⟩ := addRecord_ok hadd
  have hstored := DirectoryRecord.storedAs_of_encode policy hencode
  have hend := endOfRecordsFrom_of_zeroPadded 0 hread hzero
  obtain rfl : stop = Cursor.endFrom 0 records := Except.ok.inj (hstop.symm.trans hend)
  rcases placeFor_cases (Cursor.endFrom 0 records) hstored.length_le with ⟨hplace, -⟩ | hplace
  · exact .inl hplace
  · right
    rw [hplace]
    unfold remainingInSector sectorSize
    omega

/-- **Appending to a directory that can be read.** A record that is appended is given behind the records
that were given before, at the offset of the call, exactly if that is where the last of them ends or the
start of a later sector. It always is where the padding of the directory is zeros. -/
theorem addRecord_seen_iff (hread : recordsOf policy extent = records.map .ok)
    (hadd : (addRecord r).run.run extent = (.ok offset, extent')) :
    (recordsOf policy extent' = records.map .ok ++ [.ok (offset, r.recorded)] ↔
      IsNext records offset) ∧
    (ZeroPadded 0 extent records →
      recordsOf policy extent' = records.map .ok ++ [.ok (offset, r.recorded)]) :=
  ⟨⟨place_of_seen, seen_of_place hread hadd⟩,
    fun hzero => seen_of_place hread hadd (place_of_zeroPadded hread hadd hzero)⟩

/-- In a directory of 120 bytes that has been begun, all behind the two records is zeros. A third record
goes right behind them, and is seen there. -/
theorem addRecord_seen_iff_begun :
    let start := ((beginDirectory 20 120 18 2048).run.run (Bytes.zeros 120)).2
    let records := [(0, .ofExtent [0x00] 20 120 .directory), (34, .ofExtent [0x01] 18 2048 .directory)]
    let r := DirectoryRecord.ofExtent [0x41] 24 5 ⟨0⟩
    ∃ extent', (addRecord r).run.run start = (.ok 68, extent') ∧
      recordsOf .strict extent' = records.map .ok ++ [.ok (68, r.recorded)] := by
  intro start records r
  have hbegun : ((beginDirectory 20 120 18 2048).run.run (Bytes.zeros 120)).1 = .ok () :=
    eq_ok_of_toOption (by decide +kernel)
  have hread : recordsOf .strict start = records.map .ok :=
    (authored_beginDirectory .strict (Prod.ext hbegun rfl)).recordsOf_eq
  have hrun : ((addRecord r).run.run start).1 = .ok 68 := eq_ok_of_toOption (by decide +kernel)
  have hzero : ZeroPadded 0 start records := by
    unfold ZeroPadded
    decide +kernel
  exact ⟨_, Prod.ext hrun rfl, (addRecord_seen_iff hread (Prod.ext hrun rfl)).2 hzero⟩

/-- In the same directory there is a 5 two bytes behind the records. A record goes behind that, where no
walk comes to: from the zero at 68 it goes on with the next sector. -/
theorem addRecord_unseen :
    let start := ((beginDirectory 20 120 18 2048).run.run (Bytes.zeros 120)).2
    let records := [(0, .ofExtent [0x00] 20 120 .directory), (34, .ofExtent [0x01] 18 2048 .directory)]
    let r := DirectoryRecord.ofExtent [0x41] 24 5 ⟨0⟩
    recordsOf .strict (start.put 70 [5]) = records.map .ok ∧
      ∃ extent', (addRecord r).run.run (start.put 70 [5]) = (.ok 75, extent') ∧
        recordsOf .strict extent' ≠ records.map .ok ++ [.ok (75, r.recorded)] := by
  intro start records r
  have hbegun : ((beginDirectory 20 120 18 2048).run.run (Bytes.zeros 120)).1 = .ok () :=
    eq_ok_of_toOption (by decide +kernel)
  obtain ⟨used, free, hstart, hused, hpacked⟩ : Authored .strict start 68 records :=
    authored_beginDirectory .strict (Prod.ext hbegun rfl)
  have hrun : ((addRecord r).run.run (start.put 70 [5])).1 = .ok 75 :=
    eq_ok_of_toOption (by decide +kernel)
  have hread : recordsOf .strict (start.put 70 [5]) = records.map .ok := by
    have hlength : (used ++ Bytes.zeros free).length = 120 := by
      rw [← hstart]
      decide +kernel
    rw [hstart, Authored.put_append_zeros (by omega) (by rw [hlength]; decide), recordsOf,
      Cursor.ofExtent, List.append_assoc, List.append_assoc, hpacked.items_append, hused]
    refine (congrArg (records.map Except.ok ++ ·) ?_).trans (List.append_nil _)
    refine Cursor.items_eq_nil_of_head rfl ?_
    rw [List.length_append, Bytes.length_zeros] at hlength
    simp only [List.length_append, Bytes.length_zeros, List.length_singleton]
    unfold remainingInSector sectorSize
    omega
  refine ⟨hread, _, Prod.ext hrun rfl, ?_⟩
  exact fun hseen => absurd (place_of_seen hseen) (by decide)

end Authoring

end Ecma119
