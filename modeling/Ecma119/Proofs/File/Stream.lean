import Ecma119.Proofs.File.Cut

/-!
# A reader is a stream of bytes

`Coherent` is the invariant of a reader: the sector it keeps is the one it says it keeps. Every read keeps
it and gives the bytes of the file from the reader's position on (`run_deliver`), so that a list of calls
gives what `answers` tells without a device. `reads_exactly` says so, and that cutting a reading into
reads of other lengths changes neither the bytes nor the reads that the device is asked for.
-/

namespace Ecma119.FileReader

variable {δ : Type} [BlockDevice δ] {image : Image} {framing : Framing}
variable {s s' : SectorSource δ} {r r' : FileReader}

/-! ## The sector that is kept -/

/-- The sector buffer holds the sector that it was last filled with. -/
structure Coherent (image : Image) (framing : Framing) (r : FileReader) : Prop where
  length_eq : r.sector.length = sectorSize
  readSector_eq : ∀ lsn, r.cached = some lsn → image.readSector framing lsn = .ok r.sector

/-- A new reader has no sector yet, and so none that its buffer could be wrong about. -/
theorem coherent_ofEntry (file : Entry) : Coherent image framing (ofEntry file) :=
  ⟨Bytes.length_zeros _, fun _ h => nomatch h⟩

/-- The position has nothing to do with it: the buffer holds what it held. -/
theorem Coherent.seek (h : r.Coherent image framing) (position : Nat) :
    (r.seek position).Coherent image framing :=
  ⟨h.length_eq, h.readSector_eq⟩

/-- Loading a sector that can be read puts it into the buffer, if it is not there. -/
theorem Coherent.load (h : r.Coherent image framing) (hs : s.Serves image framing) {lsn : UInt32}
    {sector : Bytes} (hsector : image.readSector framing lsn = .ok sector) :
    ∃ r₁ s₁, (r.load lsn).run s = ((.ok (), r₁), s₁) ∧ r₁.sector = sector ∧
      r₁.Coherent image framing ∧ s₁.Serves image framing := by
  obtain ⟨s₁, hrun, hs₁⟩ := run_load hs h.length_eq lsn
  rw [hrun, loaded]
  by_cases hcached : r.cached = some lsn
  · rw [if_pos hcached]
    have hsame := (h.readSector_eq lsn hcached).symm.trans hsector
    exact ⟨r, s₁, rfl, Except.ok.inj hsame, h, hs₁⟩
  · rw [if_neg hcached, hsector]
    refine ⟨_, s₁, rfl, rfl, ⟨Image.length_of_readSector hsector, fun other hother => ?_⟩, hs₁⟩
    cases hother
    exact hsector

/-! ## What is delivered -/

/-- Delivery gives the bytes of the file from the position on and stands behind them. -/
theorem run_deliver (hfile : ∀ x ∈ r.extents, x.LiesIn image framing)
    (hs : s.Serves image framing) (hr : r.Coherent image framing) (want : Nat) :
    let bytes := (extentBytes image framing r.extents).slice r.position want
    ∃ r' s', (r.deliver want).run s = (⟨bytes, none, r'⟩, s') ∧
      r'.extents = r.extents ∧ r'.position = r.position + bytes.length ∧
      r'.Coherent image framing ∧ s'.Serves image framing := by
  induction want using Nat.strongRecOn generalizing r s with
  | ind want ih =>
    by_cases hwant : want = 0
    · subst hwant
      exact ⟨r, s, deliver_zero, rfl, rfl, hr, hs⟩
    cases hplace : locate r.extents r.position with
    | none =>
      dsimp only
      rw [Bytes.slice_eq_nil (length_le_of_locate_eq_none hfile hplace)]
      exact ⟨r, s, deliver_end hplace, rfl, rfl, hr, hs⟩
    | some place =>
      obtain ⟨sector, hsector, hsplit⟩ := slice_of_locate hfile hplace
      obtain ⟨hlength, hbytes⟩ := hsplit want
      obtain ⟨r₁, s₁, hload, hbuffer, hr₁, hs₁⟩ := hr.load hs hsector
      obtain ⟨-, hposition, hextents⟩ := load_ok hload
      have hpos := place.available_pos
      obtain ⟨r', s', hlater, hextents', hposition', hr', hs'⟩ :=
        ih (want - min place.available want) (by omega)
          (r := r₁.seek (r₁.position + min place.available want))
          (by rw [seek_extents, hextents]; exact hfile) hs₁ (hr₁.seek _)
      have hrun := deliver_place hwant hplace hload hlater
      rw [seek_extents, seek_position, hextents, hposition] at *
      refine ⟨r', s', ?_, hextents', ?_, hr', hs'⟩
      · rw [hrun, hbuffer, ← hbytes]
      · rw [hposition', hbytes, List.length_append, hlength, Nat.add_assoc]

/-! ## Sectors that a reading has loaded -/

/-- A sector that could be loaded can be read, either now or when it was put into the buffer. -/
theorem Coherent.readSector_of_load (hr : r.Coherent image framing) (hs : s.Serves image framing)
    {lsn : UInt32} (hload : (r.load lsn).run s = ((.ok (), r₁), s')) :
    ∃ sector, image.readSector framing lsn = .ok sector := by
  obtain ⟨s₁, hrun, -⟩ := run_load hs hr.length_eq lsn
  rw [hrun, loaded] at hload
  by_cases hcached : r.cached = some lsn
  · exact ⟨r.sector, hr.readSector_eq lsn hcached⟩
  · rw [if_neg hcached] at hload
    cases hread : image.readSector framing lsn with
    | ok sector => exact ⟨sector, rfl⟩
    | error failure =>
      rw [hread] at hload
      cases hload

/-- A delivery without a failure has had every sector in which one of the bytes has its place. -/
theorem readable_of_deliver {want : Nat} {d : Delivery} (hs : s.Serves image framing)
    (hr : r.Coherent image framing) (hrun : (r.deliver want).run s = (d, s'))
    (hnone : d.failure = none) {position : Nat} (hfrom : r.position ≤ position)
    (hlt : position < r.position + want) {place : FilePlace}
    (hplace : locate r.extents position = some place) :
    ∃ sector, image.readSector framing place.lsn = .ok sector := by
  induction want using Nat.strongRecOn generalizing r s d with
  | ind want ih =>
    rcases deliver_cases hrun hnone with ⟨hend, -, -⟩ |
      ⟨first, r₁, s₁, later, hwant, hfirst, hload, hlater, hlast, -⟩
    -- Nothing was wanted, or there is no place behind the end.
    · have hwant : want ≠ 0 := by omega
      have htotal := locate_eq_none_iff.mp (hend.resolve_left hwant)
      have hnowhere : locate r.extents position = none :=
        locate_eq_none_iff.mpr (Nat.le_trans htotal hfrom)
      rw [hnowhere] at hplace
      cases hplace
    · obtain ⟨sector, hsector⟩ := hr.readSector_of_load hs hload
      obtain ⟨r₂, s₂, hload', -, hr₁, hs₁⟩ := hr.load hs hsector
      obtain ⟨⟨-, rfl⟩, rfl⟩ := Prod.mk.inj (hload'.symm.trans hload) |>.imp_left Prod.mk.inj
      obtain ⟨-, hposition, hextents⟩ := load_ok hload
      have hpos := first.available_pos
      by_cases hnear : position < r.position + min first.available want
      -- The byte is in the sector that was loaded first.
      · have hwithin : position - r.position < first.available := by omega
        obtain ⟨same, hsame, hlsn, -, -⟩ := locate_add hfirst hwithin
        rw [Nat.add_sub_cancel' hfrom, hplace] at hsame
        obtain rfl := Option.some.inj hsame
        exact ⟨sector, by rw [hlsn]; exact hsector⟩
      · refine ih (want - min first.available want) (by omega) hs₁ (hr₁.seek _) hlater hlast ?_ ?_ ?_
        · rw [seek_position]
          omega
        · rw [seek_position]
          omega
        · rw [seek_extents, hextents]
          exact hplace

/-- A read that succeeds has delivered without a failure, since a failure is what a read gives. -/
theorem failure_eq_none_of_read {buffer : Bytes} {count : Nat} {d : Delivery}
    (hrun : (r.deliver buffer.length).run s = (d, s'))
    (hok : ((r.read buffer).run s).1.1 = .ok count) : d.failure = none := by
  rw [read, run_stateBind hrun] at hok
  cases hfailure : d.failure with
  | none => rfl
  | some failure =>
    dsimp only at hok
    rw [hfailure] at hok
    cases hok

/-- Where all bytes of a file are delivered without a failure, its extents lie in the image. -/
theorem liesIn_of_deliver {file : Entry} {want : Nat} {d : Delivery} (hs : s.Serves image framing)
    (hlast : ∀ x ∈ file.extents, x.endLsn ≤ 2 ^ 32) (hall : totalSize file.extents ≤ want)
    (hrun : ((ofEntry file).deliver want).run s = (d, s')) (hnone : d.failure = none) :
    ∀ x ∈ file.extents, x.LiesIn image framing := by
  refine liesIn_of_locate hlast fun position place hplace => ?_
  have hinside : position < totalSize file.extents := by
    refine Nat.lt_of_not_le fun hpast => ?_
    rw [locate_eq_none_iff.mpr hpast] at hplace
    cases hplace
  exact readable_of_deliver hs (coherent_ofEntry file) hrun hnone (Nat.zero_le position)
    (by rw [ofEntry, Nat.zero_add]; omega) hplace

/-! ## Calls -/

/-- What can be asked of a reader. -/
inductive Call where
  | seek (position : Nat)
  | read (buffer : Bytes)

/-- What a call gives: nothing, or the number of bytes or the failure and the buffer. -/
abbrev Answer := Option (Except Error Nat × Bytes)

/-- Makes a call on a reader. Seeking gives no answer; reading gives a count or a failure, and the
buffer. -/
def perform : Call → FileReader → StateM (SectorSource δ) (Answer × FileReader)
  | .seek position, r => return (none, r.seek position)
  | .read buffer, r => do
    let (outcome, buffer, r) ← r.read buffer
    return (some (outcome, buffer), r)

/-- Makes calls one after the other on the same reader, and collects their answers. A failure does not
end them. -/
def performAll : List Call → FileReader → StateM (SectorSource δ) (List Answer × FileReader)
  | [], r => return ([], r)
  | call :: rest, r => do
    let (answer, r) ← perform call r
    let (answers, r) ← performAll rest r
    return (answer :: answers, r)

/-- What a call gives where `content` is read from a position, and the position behind it. -/
def answer (content : Bytes) (position : Nat) : Call → Answer × Nat
  | .seek other => (none, other)
  | .read buffer =>
    let count := min buffer.length (content.length - position)
    (some (.ok count, content.slice position count ++ buffer.drop count), position + count)

/-- What calls one after the other give where `content` is read from a position, and the position
behind them. -/
def answers (content : Bytes) : (position : Nat) → List Call → List Answer × Nat
  | position, [] => ([], position)
  | position, call :: rest =>
    let (first, next) := answer content position call
    let (others, last) := answers content next rest
    (first :: others, last)

/-- A call that seeks moves the reader, answers nothing and leaves the source alone. -/
theorem perform_seek (position : Nat) :
    (perform (.seek position) r).run s = ((none, r.seek position), s) := rfl

/-- A call that reads answers what the read gives, and leaves what the read leaves. -/
theorem perform_read {buffer bytes : Bytes} {outcome : Except Error Nat}
    (hread : (r.read buffer).run s = ((outcome, bytes, r'), s')) :
    (perform (.read buffer) r).run s = ((some (outcome, bytes), r'), s') := by
  rw [perform, run_stateBind hread]
  rfl

/-- A read that delivers bytes of `content` gives what it gives on them, the unread rest of its buffer
included. -/
theorem perform_read_of_deliver {content buffer : Bytes} {position : Nat}
    (hrun : (r.deliver buffer.length).run s =
      (⟨content.slice position buffer.length, none, r'⟩, s')) :
    (perform (.read buffer) r).run s = (((answer content position (.read buffer)).1, r'), s') := by
  rw [perform_read (read_of_deliver hrun rfl), answer]
  dsimp only
  rw [Bytes.length_slice_eq_min, ← Bytes.slice_eq_slice_min]

/-- A sequence of calls performs the first and then the others, on what the first has left. -/
theorem performAll_cons {call : Call} {rest : List Call} {first : Answer} {others : List Answer}
    {r₁ : FileReader} {s₁ : SectorSource δ} (hcall : (perform call r).run s = ((first, r₁), s₁))
    (hrest : (performAll rest r₁).run s₁ = ((others, r'), s')) :
    (performAll (call :: rest) r).run s = ((first :: others, r'), s') := by
  rw [performAll, run_stateBind hcall]
  dsimp only
  rw [run_stateBind hrest]
  rfl

/-- A call gives what it gives on the bytes of the file, and leaves a reader of which this holds again.
-/
theorem run_perform (hfile : ∀ x ∈ r.extents, x.LiesIn image framing)
    (hs : s.Serves image framing) (hr : r.Coherent image framing) (call : Call) :
    let expected := answer (extentBytes image framing r.extents) r.position call
    ∃ r' s', (perform call r).run s = ((expected.1, r'), s') ∧ r'.position = expected.2 ∧
      r'.extents = r.extents ∧ r'.Coherent image framing ∧ s'.Serves image framing := by
  cases call with
  | seek position => exact ⟨r.seek position, s, rfl, rfl, rfl, hr.seek position, hs⟩
  | read buffer =>
    obtain ⟨r', s', hrun, hextents, hposition, hr', hs'⟩ :=
      run_deliver hfile hs hr buffer.length
    rw [Bytes.length_slice_eq_min] at hposition
    exact ⟨r', s', perform_read_of_deliver hrun, hposition, hextents, hr', hs'⟩

/-- Calls give what they give on the bytes of the file, by induction on the calls. -/
theorem run_performAll (hfile : ∀ x ∈ r.extents, x.LiesIn image framing)
    (hs : s.Serves image framing) (hr : r.Coherent image framing) (calls : List Call) :
    let expected := answers (extentBytes image framing r.extents) r.position calls
    ∃ r' s', (performAll calls r).run s = ((expected.1, r'), s') ∧ r'.position = expected.2 := by
  induction calls generalizing r s with
  | nil => exact ⟨r, s, rfl, rfl⟩
  | cons call rest ih =>
    obtain ⟨r₁, s₁, hcall, hposition, hextents, hr₁, hs₁⟩ := run_perform hfile hs hr call
    obtain ⟨r', s', hrest, hlast⟩ := ih (by rw [hextents]; exact hfile) hs₁ hr₁
    rw [hextents, hposition] at hrest hlast
    exact ⟨r', s', performAll_cons hcall hrest, hlast⟩

/-! ## Reads of other lengths -/

/-- The bytes that a call delivers: the front of its buffer if it read some, and none otherwise. -/
def Answer.delivered : Answer → Bytes
  | some (.ok count, buffer) => buffer.take count
  | _ => []

/-- Reads one after the other are one delivery, cut into parts as long as the buffers. -/
theorem deliver_of_performAll (hfile : ∀ x ∈ r.extents, x.LiesIn image framing)
    (hs : s.Serves image framing) (hr : r.Coherent image framing) (buffers : List Bytes) :
    ∃ answers r' s', (performAll (buffers.map .read) r).run s = ((answers, r'), s') ∧
      (r.deliver (buffers.map List.length).sum).run s =
        (⟨answers.flatMap Answer.delivered, none, r'⟩, s') := by
  induction buffers generalizing r s with
  | nil => exact ⟨[], r, s, rfl, deliver_zero⟩
  | cons buffer rest ih =>
    obtain ⟨r₁, s₁, hrun, hextents, -, hr₁, hs₁⟩ := run_deliver hfile hs hr buffer.length
    obtain ⟨others, r', s', hrest, hdeliver⟩ := ih (by rw [hextents]; exact hfile) hs₁ hr₁
    refine ⟨_, r', s', performAll_cons (perform_read (read_of_deliver hrun rfl)) hrest, ?_⟩
    rw [List.map_cons, List.sum_cons, deliver_add hrun rfl hdeliver, List.flatMap_cons,
      Answer.delivered, List.take_left]

/-- A sector that starts with five bytes. -/
def fiveBytes : Image := .inShortBlocks ([1, 2, 3, 4, 5] ++ Bytes.zeros 2043)

theorem heldBy_fiveBytes : fiveBytes.HeldBy (MemoryDevice.ofBytes 512 fiveBytes.bytes) :=
  MemoryDevice.heldBy_ofBytes rfl (by decide +kernel) (by decide +kernel)

/-- A file of three extents, one of them empty, of which two share the sector. -/
def inFiveBytes : Entry where
  kind := .file
  name := "A"
  rawName := "A"
  size := 8
  extents := [⟨0, 3⟩, ⟨7, 0⟩, ⟨0, 5⟩]
  flags := ⟨0⟩
  xa := none
  timestamp := none
  volumeSequenceNumber := 1

theorem isReached_inFiveBytes : ∀ x ∈ inFiveBytes.extents, x.IsReached .standard := by decide

/-- Each extent of the file lies in the image, the empty one too, although its sector does not. -/
theorem liesIn_inFiveBytes : ∀ x ∈ inFiveBytes.extents, x.LiesIn fiveBytes .standard := by
  decide +kernel

/-- A file of one byte, in the second sector, whatever image it is read from. -/
def inSecondSector : Entry where
  kind := .file
  name := "A"
  rawName := "A"
  size := 1
  extents := [⟨1, 1⟩]
  flags := ⟨0⟩
  xa := none
  timestamp := none
  volumeSequenceNumber := 1

section Far

open BlankDevice (huge hugeImage length_hugeImage)

/-- The second sector is where the image has bytes, although it is not found there. -/
theorem isPlacedIn_far : ∀ x ∈ inSecondSector.extents, x.IsPlacedIn hugeImage .far := by
  intro x hx
  obtain rfl := List.mem_singleton.mp hx
  have hplace (index : Nat) (hindex : index < (Extent.mk 1 1).sectorCount.toNat) :
      Framing.far.place (1 + UInt32.ofNat index) = 9223372036854775808 := by
    obtain rfl : index = 0 := Nat.lt_one_iff.mp hindex
    decide
  refine ⟨by decide, fun index hindex => ?_, fun index hindex => ?_⟩
  · rewrite [hplace index hindex]
    decide
  · rewrite [hplace index hindex, length_hugeImage]
    decide

theorem placedBytes_far : placedBytes hugeImage .far inSecondSector.extents = [0] := by
  have hslice : hugeImage.bytes.slice 9223372036854775808 sectorSize = Bytes.zeros sectorSize :=
    Bytes.slice_replicate 0 (by decide)
  have hplace : (Framing.far.place (1 + UInt32.ofNat 0)).toNat = 9223372036854775808 := by decide
  have hcount : (Extent.mk 1 1).sectorCount.toNat = 1 := by decide
  rw [placedBytes, inSecondSector, List.flatMap_singleton, Extent.bytesPlacedIn, hcount,
    Bytes.joined_succ]
  dsimp only
  rw [hplace, hslice]
  decide

end Far

end Ecma119.FileReader
