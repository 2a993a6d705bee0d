import Ecma119.Proofs.Directory.Chains
import Ecma119.Proofs.Directory.FreeSpace
import Ecma119.Proofs.Directory.Places

/-!
# Walking over any bytes

A walk is also a matter of offsets into an extent that stays as it is. `Cursor.nextItem?` is one call for
the next item in this form: it has nothing but an offset to go on, and asks the extent for bytes at
certain places. No call asks for a byte that is not there, and the calls give the items of the walk one
after the other and then nothing (`nextItems?_eq`).

What a call can give is told by `StepsTo`, and what a whole walk gives, by `Walks`.
-/

namespace Ecma119

def nextSector (offset : Nat) : Nat := (offset / sectorSize + 1) * sectorSize

theorem nextSector_eq (offset : Nat) : nextSector offset = offset + remainingInSector offset := by
  unfold nextSector remainingInSector sectorSize
  omega

theorem lt_nextSector (offset : Nat) : offset < nextSector offset := by
  rw [nextSector_eq]
  exact Nat.lt_add_of_pos_right (remainingInSector_pos offset)

/-- Bytes have room if they end before the next sector starts, and before the extent ends. -/
theorem Authoring.hasRoom_iff {size length offset : Nat} :
    HasRoom size length offset ↔ offset + length ≤ min (nextSector offset) size := by
  have hmod := Nat.div_add_mod offset sectorSize
  constructor
  · rintro ⟨hinside, hsector⟩
    unfold nextSector sectorSize at *
    omega
  · intro h
    unfold nextSector sectorSize at *
    exact ⟨by omega, by unfold sectorSize; omega⟩

namespace Cursor

open Authoring (HasRoom)

variable {policy : EndianPolicy} {extent : Bytes} {offset start stop behind : Nat}
variable {item : Option WalkItem} {r : DirectoryRecord} {cause : FormatError}
variable {records : List (Nat × DirectoryRecord)} {fault : Option (Nat × FormatError)}

/-! ## The walk by offsets -/

/-- From `offset` on, the first place where a record or the end of the extent is. -/
def skipFrom (extent : Bytes) (offset : Nat) : Nat :=
  if extent[offset]? = some 0 then skipFrom extent (nextSector offset) else offset
termination_by extent.length - offset
decreasing_by
  have hlt := lt_nextSector offset
  obtain ⟨hinside, -⟩ := List.getElem?_eq_some_iff.mp ‹_›
  omega

/-- The item that is made of so many bytes at `start`, and the offset behind it. -/
def itemAt? (policy : EndianPolicy) (extent : Bytes) (start length : Nat) : Option (WalkItem × Nat) :=
  if min (nextSector start) extent.length < start + length then
    some (.error .truncatedRecord, extent.length)
  else do
    match ← DirectoryRecord.parseInPlace? policy (← extent.range? start (start + length)) with
    | .ok record => return (.ok (start, record), start + length)
    | .error cause => return (.error cause, extent.length)

/-- The next item from `offset` on, if there is one, and the offset behind it. The result is `none` if
bytes are asked for that are not in the extent. -/
def nextItem? (policy : EndianPolicy) (extent : Bytes) (offset : Nat) :
    Option (Option WalkItem × Nat) :=
  let start := skipFrom extent offset
  match extent[start]? with
  | none => some (none, start)
  | some length => do
    let (item, behind) ← itemAt? policy extent start length.toNat
    return (some item, behind)

/-- What so many calls for the next item give, one after the other. -/
def nextItems? (policy : EndianPolicy) (extent : Bytes) :
    (calls offset : Nat) → Option (List (Option WalkItem))
  | 0, _ => some []
  | calls + 1, offset => do
    let (item, behind) ← nextItem? policy extent offset
    return item :: (← nextItems? policy extent calls behind)

/-! ## One step -/

/-- A walk comes from the first place to the second over padding: at each zero that it meets, it goes on
with the next sector. -/
inductive PassesOver (extent : Bytes) : (offset stop : Nat) → Prop
  | here (offset : Nat) : PassesOver extent offset offset
  | sector {offset stop : Nat} (zero : extent[offset]? = some 0)
      (rest : PassesOver extent (nextSector offset) stop) : PassesOver extent offset stop

/-- Nothing that is passed over leads back. -/
theorem PassesOver.le (h : PassesOver extent offset stop) : offset ≤ stop := by
  induction h with
  | here offset => exact Nat.le_refl offset
  | @sector offset stop _ _ ih => exact Nat.le_trans (Nat.le_of_lt (lt_nextSector offset)) ih

/-- The record lies in the extent at `start`: there is its length, and so many bytes are within one
sector and are read as the record. -/
structure LiesAt (policy : EndianPolicy) (extent : Bytes) (start : Nat) (r : DirectoryRecord) :
    Prop where
  lengthByte : extent[start]? = some r.length
  minLength_le : DirectoryRecord.minLength ≤ r.length.toNat
  hasRoom : HasRoom extent.length r.length.toNat start
  parsed : DirectoryRecord.parse policy (extent.slice start r.length.toNat) = .ok r

/-- At `start` there is the length of a record, but so many bytes are not within the extent and one
sector, or they are not read as a record. -/
def FaultAt (policy : EndianPolicy) (extent : Bytes) (start : Nat) (cause : FormatError) : Prop :=
  ∃ length, extent[start]? = some length ∧ length ≠ 0 ∧
    (¬ HasRoom extent.length length.toNat start → cause = .truncatedRecord) ∧
    (HasRoom extent.length length.toNat start →
      DirectoryRecord.parse policy (extent.slice start length.toNat) = .error cause)

/-- What a call for the next item can give, and the offset behind it. -/
inductive StepsTo (policy : EndianPolicy) (extent : Bytes) (offset : Nat) :
    Option WalkItem → Nat → Prop
  | ended {stop : Nat} (passed : PassesOver extent offset stop) (done : extent.length ≤ stop) :
      StepsTo policy extent offset none stop
  | record {start : Nat} {r : DirectoryRecord} (passed : PassesOver extent offset start)
      (lies : LiesAt policy extent start r) :
      StepsTo policy extent offset (some (.ok (start, r))) (start + r.length.toNat)
  | fault {start : Nat} {cause : FormatError} (passed : PassesOver extent offset start)
      (found : FaultAt policy extent start cause) :
      StepsTo policy extent offset (some (.error cause)) extent.length

/-- The place in an extent at an offset. -/
def within (extent : Bytes) (offset : Nat) : Cursor := ⟨offset, extent.drop offset⟩

/-- A cursor in an extent that is moved on is one in the same extent. -/
theorem advance_within (extent : Bytes) (offset count : Nat) :
    (within extent offset).advance count = within extent (offset + count) := by
  rw [within, advance, List.drop_drop]
  rfl

theorem length_rest_within (extent : Bytes) (offset : Nat) :
    (within extent offset).rest.length = extent.length - offset := List.length_drop

/-- Behind a place where there is a byte comes the rest of the extent, with that byte first. -/
theorem within_eq {b : UInt8} (h : extent[offset]? = some b) :
    within extent offset = ⟨offset, b :: extent.drop (offset + 1)⟩ := by
  obtain ⟨hinside, rfl⟩ := List.getElem?_eq_some_iff.mp h
  rw [within, List.drop_eq_getElem_cons hinside]

theorem within_eq_nil (h : extent.length ≤ offset) : within extent offset = ⟨offset, []⟩ := by
  rw [within, List.drop_of_length_le h]

/-- From an offset to where the padding behind it ends, nothing but padding is passed over. -/
theorem passesOver_skipFrom (extent : Bytes) (offset : Nat) :
    PassesOver extent offset (skipFrom extent offset) := by
  fun_induction skipFrom extent offset with
  | case1 offset hzero ih => exact .sector hzero ih
  | case2 offset hzero => exact .here offset

/-- Where padding ends there is no zero: a record starts there, or the extent is over. -/
theorem skipFrom_ne_zero (extent : Bytes) (offset : Nat) :
    extent[skipFrom extent offset]? ≠ some 0 := by
  fun_induction skipFrom extent offset with
  | case1 offset hzero ih => exact ih
  | case2 offset hzero => exact hzero

/-- Passing over padding moves a cursor in an extent to where the padding ends. -/
theorem skipPadding_within (extent : Bytes) (offset : Nat) :
    (within extent offset).skipPadding = within extent (skipFrom extent offset) := by
  fun_induction skipFrom extent offset with
  | case1 offset hzero ih =>
    rw [← ih, nextSector_eq, ← advance_within, within_eq hzero, skipPadding_cons_zero]
  | case2 offset hzero =>
    cases hbyte : extent[offset]? with
    | none =>
      rw [within_eq_nil (List.getElem?_eq_none_iff.mp hbyte), skipPadding]
    | some b =>
      rw [hbyte] at hzero
      rw [within_eq hbyte, skipPadding_cons_of_ne_zero fun hb => hzero (congrArg some hb)]

/-- An item is made of bytes that are there. It is the one of the walk, and a record if it can be. -/
theorem itemAt?_eq (policy : EndianPolicy) {length : UInt8} (passed : PassesOver extent offset start)
    (hbyte : extent[start]? = some length) (hlength : length ≠ 0) :
    ∃ item behind, itemAt? policy extent start length.toNat = some (item, behind) ∧
      (within extent start).readRecord policy length.toNat = (item, within extent behind) ∧
      StepsTo policy extent offset (some item) behind := by
  obtain ⟨hinside, -⟩ := List.getElem?_eq_some_iff.mp hbyte
  have hend : (within extent start).advance (within extent start).rest.length =
      within extent extent.length := by
    rw [advance_within, length_rest_within, Nat.add_sub_cancel' (Nat.le_of_lt hinside)]
  have hdata : (within extent start).rest.take length.toNat = extent.slice start length.toNat := rfl
  have hcount := Bytes.length_slice_eq_min extent start length.toNat
  have hsector : nextSector start = start + remainingInSector (within extent start).offset :=
    nextSector_eq start
  rw [itemAt?, readRecord, hdata, hend]
  by_cases hroom : HasRoom extent.length length.toNat start
  · have hfit := Authoring.hasRoom_iff.mp hroom
    rw [if_neg (Nat.not_lt.mpr hfit), if_neg (by omega),
      Bytes.range?_eq_some (Nat.le_add_right ..) hroom.inside, Nat.add_sub_cancel_left,
      Option.bind_eq_bind, Option.bind_some, DirectoryRecord.parseInPlace?_eq]
    cases hparse : DirectoryRecord.parse policy (extent.slice start length.toNat) with
    | ok r =>
      have hpos : 0 < length.toNat := Nat.pos_of_ne_zero fun h => hlength (UInt8.toNat_inj.mp h)
      obtain ⟨hmin, -⟩ := DirectoryRecord.lengths_of_parse hparse
      rw [← DirectoryRecord.toNat_length_of_parse hparse] at hmin
      have hsame : r.length = length := by
        rw [DirectoryRecord.length_of_parse hparse, List.getD_eq_getElem?_getD, Bytes.slice,
          List.getElem?_take_of_lt hpos, List.getElem?_drop, Nat.add_zero, hbyte,
          Option.getD_some]
      subst hsame
      exact ⟨_, _, rfl, by rw [advance_within]; rfl, .record passed ⟨hbyte, hmin, hroom, hparse⟩⟩
    | error cause =>
      have hfault : FaultAt policy extent start cause :=
        ⟨length, hbyte, hlength, fun hno => absurd hroom hno, fun _ => hparse⟩
      exact ⟨_, _, rfl, rfl, .fault passed hfault⟩
  · have hno := mt Authoring.hasRoom_iff.mpr hroom
    have hfault : FaultAt policy extent start .truncatedRecord :=
      ⟨length, hbyte, hlength, fun _ => rfl, fun h => absurd h hroom⟩
    exact ⟨_, _, if_pos (Nat.lt_of_not_le hno), if_pos (by omega), .fault passed hfault⟩

/-- **One call for the next item.** It asks for no byte that is not there, gives what the walk gives, and
stands behind that where the walk stands. -/
theorem nextItem?_eq (policy : EndianPolicy) (extent : Bytes) (offset : Nat) :
    ∃ item behind, nextItem? policy extent offset = some (item, behind) ∧
      (within extent offset).next policy = (item, within extent behind) ∧
      StepsTo policy extent offset item behind := by
  have passed := passesOver_skipFrom extent offset
  have hzero := skipFrom_ne_zero extent offset
  rw [nextItem?, next, skipPadding_within]
  cases hbyte : extent[skipFrom extent offset]? with
  | none =>
    have hend := List.getElem?_eq_none_iff.mp hbyte
    exact ⟨none, _, rfl, by rw [within_eq_nil hend], .ended passed hend⟩
  | some length =>
    rw [hbyte] at hzero
    obtain ⟨item, behind, hitem, hread, hstep⟩ :=
      itemAt?_eq policy passed hbyte fun h => hzero (congrArg some h)
    refine ⟨some item, behind, ?_, ?_, hstep⟩
    · show (itemAt? policy extent _ length.toNat >>= _) = _
      rw [hitem]
      rfl
    · rw [within_eq hbyte] at hread ⊢
      dsimp only
      rw [hread]

/-- What the walk gives, and where it stands then: behind the record if it gives one, and at the end
otherwise. -/
theorem stepsTo_of_next {c' : Cursor} (h : (within extent offset).next policy = (item, c')) :
    ∃ behind, c' = within extent behind ∧ StepsTo policy extent offset item behind := by
  obtain ⟨item', behind, -, hnext, hstep⟩ := nextItem?_eq policy extent offset
  rw [h] at hnext
  cases hnext
  exact ⟨behind, rfl, hstep⟩

/-- A cursor at the end of the extent, or behind it, gives nothing more. -/
theorem items_within_of_le (h : extent.length ≤ offset) :
    (within extent offset).items policy = [] :=
  items_of_rest_nil (congrArg rest (within_eq_nil h))

/-! ## A whole walk -/

/-- The calls give the items one after the other, and nothing from then on, however often they are made.
-/
theorem nextItems?_eq (policy : EndianPolicy) (extent : Bytes) (calls offset : Nat) :
    nextItems? policy extent calls offset =
      some ((List.range calls).map fun n => ((within extent offset).items policy)[n]?) := by
  induction calls generalizing offset with
  | zero => rfl
  | succ calls ih =>
    obtain ⟨item, behind, hitem, hnext, hstep⟩ := nextItem?_eq policy extent offset
    rw [nextItems?, hitem, Option.bind_eq_bind, Option.bind_some]
    dsimp only
    rw [ih, List.range_succ_eq_map, List.map_cons, List.map_map]
    cases hstep with
    | ended passed done =>
      rw [items_within_of_le done, items_eq_nil (congrArg Prod.fst hnext)]
      rfl
    | record passed lies =>
      rw [items_eq_cons hnext]
      rfl
    | fault passed found =>
      rw [items_eq_cons hnext]
      rfl

/-- What a walk gives from `offset` on: records with their places, and the fault that ends them, if there
is one, with its place. -/
inductive Walks (policy : EndianPolicy) (extent : Bytes) :
    Nat → List (Nat × DirectoryRecord) → Option (Nat × FormatError) → Prop
  | ended {offset stop : Nat} (passed : PassesOver extent offset stop)
      (done : extent.length ≤ stop) : Walks policy extent offset [] none
  | fault {offset start : Nat} {cause : FormatError} (passed : PassesOver extent offset start)
      (found : FaultAt policy extent start cause) :
      Walks policy extent offset [] (some (start, cause))
  | record {offset start : Nat} {r : DirectoryRecord} {records : List (Nat × DirectoryRecord)}
      {fault : Option (Nat × FormatError)} (passed : PassesOver extent offset start)
      (lies : LiesAt policy extent start r)
      (rest : Walks policy extent (start + r.length.toNat) records fault) :
      Walks policy extent offset ((start, r) :: records) fault

/-- The items of a walk are what it gives: records, and a fault behind them if there is one. The
induction follows the walk. -/
theorem exists_walks (policy : EndianPolicy) (extent : Bytes) (offset : Nat) :
    ∃ records fault, Walks policy extent offset records fault ∧
      (within extent offset).items policy =
        records.map .ok ++ (fault.map fun entry => .error entry.2).toList := by
  generalize hc : within extent offset = c
  fun_induction items policy c generalizing offset with
  | case1 c c' hnext =>
    rw [← hc] at hnext
    obtain ⟨behind, rfl, hstep⟩ := stepsTo_of_next hnext
    cases hstep with
    | ended passed done => exact ⟨[], none, .ended passed done, rfl⟩
  | case2 c item c' hnext ih =>
    rw [← hc] at hnext
    obtain ⟨behind, rfl, hstep⟩ := stepsTo_of_next hnext
    cases hstep with
    | record passed lies =>
      obtain ⟨records, fault, hrest, hitems⟩ := ih _ rfl
      exact ⟨_ :: records, fault, .record passed lies hrest, by rw [hitems]; rfl⟩
    | fault passed found =>
      rw [items_within_of_le (Nat.le_refl _)]
      exact ⟨[], some (_, _), .fault passed found, rfl⟩

/-- The places of the records and of the fault, if the walk ends in one, in their order. -/
def places (records : List (Nat × DirectoryRecord)) (fault : Option (Nat × FormatError)) : List Nat :=
  records.map Prod.fst ++ (fault.map Prod.fst).toList

namespace Walks

variable {before later : List (Nat × DirectoryRecord)}

/-- Behind the first records the walk goes on from the end of the last of them, with the same fault if
any. -/
theorem of_append (h : Walks policy extent offset (before ++ later) fault) :
    Walks policy extent (endFrom offset before) later fault := by
  induction before generalizing offset with
  | nil => exact h
  | cons entry before ih =>
    cases h with
    | record passed lies rest => exact ih rest

/-- Every record that a walk gives lies where the walk says that it was found. -/
theorem liesAt (h : Walks policy extent offset records fault) :
    ∀ entry ∈ records, LiesAt policy extent entry.1 entry.2 := by
  induction h with
  | ended | fault => exact List.forall_mem_nil _
  | record passed lies rest ih => exact List.forall_mem_cons.mpr ⟨lies, ih⟩

/-- A record stands where the one before it ends, or behind padding there. The induction is on the
records. -/
theorem passesOver (h : Walks policy extent offset records fault) {entry : Nat × DirectoryRecord}
    {after : List (Nat × DirectoryRecord)} (hrecords : records = before ++ entry :: after) :
    PassesOver extent (endFrom offset before) entry.1 := by
  rw [hrecords] at h
  cases h.of_append with
  | record passed lies rest => exact passed

/-- Behind the last record there is padding up to the fault, or up to the end of the extent. -/
theorem passesOver_last (h : Walks policy extent offset records fault) :
    (∀ entry ∈ fault, PassesOver extent (endFrom offset records) entry.1 ∧
      FaultAt policy extent entry.1 entry.2) ∧
    (fault = none → ∃ stop, PassesOver extent (endFrom offset records) stop ∧
      extent.length ≤ stop) := by
  rw [← List.append_nil records] at h
  cases h.of_append with
  | ended passed done => exact ⟨fun _ hmem => (nomatch hmem), fun _ => ⟨_, passed, done⟩⟩
  | fault passed found =>
    refine ⟨fun entry hmem => ?_, fun hnone => (nomatch hnone)⟩
    cases hmem
    exact ⟨passed, found⟩

/-- Nothing comes from a place before the one where the walk stands, neither a record nor the fault. -/
theorem le_of_mem_places (h : Walks policy extent offset records fault) :
    ∀ place ∈ places records fault, offset ≤ place := by
  induction h with
  | ended => exact List.forall_mem_nil _
  | fault passed => exact List.forall_mem_singleton.mpr passed.le
  | record passed lies rest ih =>
    have hle := passed.le
    refine List.forall_mem_cons.mpr ⟨hle, fun place hplace => ?_⟩
    have hbehind := ih place hplace
    omega

/-- Every place is behind the one before it, so that no record is met twice. -/
theorem pairwise_places (h : Walks policy extent offset records fault) :
    (places records fault).Pairwise (· < ·) := by
  induction h with
  | ended => exact .nil
  | fault => exact List.pairwise_singleton _ _
  | @record offset start r records fault passed lies rest ih =>
    refine List.pairwise_cons.mpr ⟨fun place hplace => ?_, ih⟩
    have hbehind := rest.le_of_mem_places place hplace
    have hmin : 34 ≤ r.length.toNat := lies.minLength_le
    omega

/-- There is room for all records behind the place where the walk starts, so that they do not overlap. -/
theorem room_le (h : Walks policy extent offset records fault) (hinside : offset ≤ extent.length) :
    offset + DirectoryRecord.minLength * records.length ≤ extent.length := by
  induction h with
  | ended | fault => exact hinside
  | @record offset start r records fault passed lies rest ih =>
    have hle := passed.le
    have hroom := ih lies.hasRoom.inside
    have hmin := lies.minLength_le
    rw [List.length_cons, Nat.mul_succ]
    omega

end Walks

/-- Where a walk has given something that is no record, it gives nothing more from then on. -/
theorem getElem?_items_eq_none {last : Option WalkItem} {n m : Nat}
    (hend : ∀ entry, (records.map .ok ++ last.toList)[n]? ≠ some (.ok entry)) (hlater : n < m) :
    (records.map .ok ++ last.toList)[m]? = none := by
  have hn : records.length ≤ n := by
    by_contra hinside
    have hitem : (records.map .ok ++ last.toList)[n]? = some (.ok records[n]) := by
      rw [List.getElem?_append_left (by rw [List.length_map]; omega), List.getElem?_map,
        List.getElem?_eq_getElem, Option.map_some]
    exact hend _ hitem
  have hlast : last.toList.length ≤ 1 := Option.length_toList_le
  apply List.getElem?_eq_none
  rw [List.length_append, List.length_map]
  omega

end Cursor

open Cursor in
/-- **A walk over any bytes is safe and comes to an end.** However often the next item is asked for, no
byte is asked for that is not in the extent. The calls give the items of the walk, and after the last of
them, or a fault, nothing. The items are records and at most one fault behind them. Each record lies
at its place within the extent and within one sector. Every place is behind the one before it, and the
walk comes to it from the end of the record before it over padding only. -/
theorem walk_ends_safely (policy : EndianPolicy) (extent : Bytes) :
    (∀ calls, nextItems? policy extent calls 0 =
      some ((List.range calls).map fun n => (recordsOf policy extent)[n]?)) ∧
    (∀ n m : Nat, n < m → (∀ entry, (recordsOf policy extent)[n]? ≠ some (Except.ok entry)) →
      (recordsOf policy extent)[m]? = none) ∧
    ∃ (records : List (Nat × DirectoryRecord)) (fault : Option (Nat × FormatError)),
      recordsOf policy extent =
        records.map .ok ++ (fault.map fun entry => .error entry.2).toList ∧
      DirectoryRecord.minLength * records.length ≤ extent.length ∧
      (∀ entry ∈ records, LiesAt policy extent entry.1 entry.2) ∧
      (places records fault).Pairwise (· < ·) ∧
      (∀ before entry after, records = before ++ entry :: after →
        PassesOver extent (endFrom 0 before) entry.1) ∧
      (∀ entry ∈ fault, PassesOver extent (endFrom 0 records) entry.1 ∧
        FaultAt policy extent entry.1 entry.2) ∧
      (fault = none → ∃ stop, PassesOver extent (endFrom 0 records) stop ∧ extent.length ≤ stop) := by
  obtain ⟨records, fault, hwalks, hitems⟩ := exists_walks policy extent 0
  obtain ⟨hfault, hdone⟩ := hwalks.passesOver_last
  have hroom := hwalks.room_le (Nat.zero_le _)
  rw [Nat.zero_add] at hroom
  have hitems : recordsOf policy extent = _ := hitems
  refine ⟨fun calls => nextItems?_eq policy extent calls 0, fun n m hlater hend => ?_, records, fault,
    hitems, hroom, hwalks.liesAt, hwalks.pairwise_places,
    fun before entry after => hwalks.passesOver, hfault, hdone⟩
  rw [hitems] at hend ⊢
  exact getElem?_items_eq_none hend hlater

end Ecma119
