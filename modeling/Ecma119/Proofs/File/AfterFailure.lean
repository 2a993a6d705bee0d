import Ecma119.Proofs.File.Stream
import Ecma119.Proofs.Source.Faulty

/-!
# Reading on after a failure

A reader goes on after a read that failed, with the sector buffer that the failure left. The buffer is
known by the sector that it was last filled with, which a failure does not change. `Ready` is what it
takes for the next read to be right: if the buffer is known by the sector of the position, it holds
that sector. So a read that succeeds gives the bytes of the file unless three things come together, as
`readIsRight_performAll` says: an earlier read failed, what failed spoilt the buffer, and the position
is in the sector that was loaded before.
-/

namespace Ecma119.FileReader

variable {δ : Type} [BlockDevice δ] {image : Image} {framing : Framing}
variable {leaves : Bytes → Bytes → Prop} {s s' : SectorSource δ} {r r' : FileReader} {want : Nat}

/-! ## Loading a sector -/

/-- What may come of loading a sector. -/
inductive Loads (image : Image) (framing : Framing) (leaves : Bytes → Bytes → Prop)
    (r : FileReader) (lsn : UInt32) : Except Error Unit × FileReader → Prop
  | cached (h : r.cached = some lsn) : Loads image framing leaves r lsn (.ok (), r)
  | filled {sector : Bytes} (h : image.readSector framing lsn = .ok sector) :
    Loads image framing leaves r lsn (.ok (), { r with sector, cached := some lsn })
  | kept (failure : Error) : Loads image framing leaves r lsn (.error failure, r)
  | spoilt {failure : Error} {sector : Bytes} (hlength : sector.length = r.sector.length)
      (hwhole : image.IsWholeSector framing lsn) (h : leaves r.sector sector) :
    Loads image framing leaves r lsn (.error failure, { r with sector })

/-- On a device that tells the image, nothing else comes of it: the sector is loaded, or the load fails
and the buffer is kept or spoilt. -/
theorem loads_load (hs : s.Tells image framing leaves) (hlength : r.sector.length = sectorSize)
    (lsn : UInt32) :
    ∃ result s', (r.load lsn).run s = (result, s') ∧ s'.Tells image framing leaves ∧
      r.Loads image framing leaves lsn result := by
  by_cases hcached : r.cached = some lsn
  · exact ⟨_, s, load_cached hcached, hs, .cached hcached⟩
  · obtain ⟨fill, s₁, hfill, hs₁, hcomes⟩ := hs.run_fillSector lsn hlength
    rw [load, if_neg hcached, run_stateBind hfill]
    cases hcomes with
    | filled h => exact ⟨_, s₁, rfl, hs₁, .filled h⟩
    | kept failure => exact ⟨_, s₁, rfl, hs₁, .kept failure⟩
    | spoilt hlength h => exact ⟨_, s₁, rfl, hs₁, .spoilt hlength h.1 h.2⟩

/-- The buffer keeps its length, and the device goes on telling the image, whatever comes of a load. -/
theorem load_keeps (hs : s.Tells image framing leaves) (hlength : r.sector.length = sectorSize)
    (lsn : UInt32) :
    ((r.load lsn).run s).2.Tells image framing leaves ∧
      ((r.load lsn).run s).1.2.sector.length = sectorSize := by
  obtain ⟨result, s₁, hrun, hs₁, hloads⟩ := loads_load hs hlength lsn
  rw [hrun]
  cases hloads with
  | cached _ => exact ⟨hs₁, hlength⟩
  | filled hsector => exact ⟨hs₁, Image.length_of_readSector hsector⟩
  | kept _ => exact ⟨hs₁, hlength⟩
  | spoilt hleft _ _ => exact ⟨hs₁, hleft.trans hlength⟩

/-! ## What every call keeps -/

section Keeps

variable (keeps : FileReader → SectorSource δ → Prop)
variable (hload : ∀ r s place, keeps r s → locate r.extents r.position = some place →
  keeps ((r.load place.lsn).run s).1.2 ((r.load place.lsn).run s).2)
variable (hseek : ∀ r s position, keeps r s → keeps (r.seek position) s)
include hload hseek

/-- What loading the sector of the position keeps, and seeking, is kept by a delivery. -/
theorem deliver_keeps (h : keeps r s) (want : Nat) :
    keeps ((r.deliver want).run s).1.reader ((r.deliver want).run s).2 := by
  induction want using Nat.strongRecOn generalizing r s with
  | ind want ih =>
    by_cases hwant : want = 0
    · subst hwant
      rw [deliver_zero]
      exact h
    cases hplace : locate r.extents r.position with
    | none =>
      rw [deliver_end hplace]
      exact h
    | some place =>
      have hnext := hload r s place h hplace
      cases hrun : (r.load place.lsn).run s with
      | mk result s₁ =>
        rw [hrun] at hnext
        obtain ⟨outcome, r₁⟩ := result
        cases outcome with
        | error failure =>
          rw [deliver_failure hwant hplace hrun]
          exact hnext
        | ok =>
          have hpos := place.available_pos
          rw [deliver_place hwant hplace hrun rfl]
          exact ih _ (by omega) (hseek _ _ _ hnext)

/-- So it is by any calls, whether they succeed or fail. The induction is on the calls. -/
theorem performAll_keeps (h : keeps r s) (calls : List Call) :
    keeps ((performAll calls r).run s).1.2 ((performAll calls r).run s).2 := by
  induction calls generalizing r s with
  | nil => exact h
  | cons call rest ih =>
    cases call with
    | seek position => exact ih (hseek _ _ _ h)
    | read buffer => exact ih (deliver_keeps keeps hload hseek h buffer.length)

end Keeps

/-! ## What holds whatever fails -/

/-- Some byte of the extents is in the sector, so that it may be loaded when they are read. -/
def HasSector (extents : List Extent) (lsn : UInt32) : Prop :=
  ∃ position place, locate extents position = some place ∧ place.lsn = lsn

/-- What holds of a reader and its source whatever fails. -/
structure ReadsOn (image : Image) (framing : Framing) (leaves : Bytes → Bytes → Prop)
    (extents : List Extent) (r : FileReader) (s : SectorSource δ) : Prop where
  tells : s.Tells image framing leaves
  length_eq : r.sector.length = sectorSize
  extents_eq : r.extents = extents
  hasSector : ∀ lsn, r.cached = some lsn → HasSector extents lsn

/-- Where one sector of the extents is loaded after another, a failure leaves the buffer alone. -/
def NeverSpoilt (image : Image) (framing : Framing) (leaves : Bytes → Bytes → Prop)
    (extents : List Extent) : Prop :=
  ∀ lsn other, HasSector extents lsn → HasSector extents other → lsn ≠ other →
    image.IsWholeSector framing other → ∀ before after, leaves before after → after = before

/-- Nothing is spoilt where reads that fail leave their destination alone, as devices in memory do. -/
theorem neverSpoilt_of_left_alone (extents : List Extent) :
    NeverSpoilt image framing (fun before after => after = before) extents :=
  fun _ _ _ _ _ _ _ _ hleft => hleft

section Kept

variable {extents : List Extent} {place : FilePlace}

/-- A reader that has just been made of a file can read on from a source that tells the image. -/
theorem readsOn_ofEntry {file : Entry} (hs : s.Tells image framing leaves) :
    ReadsOn image framing leaves file.extents (ofEntry file) s :=
  ⟨hs, Bytes.length_zeros _, rfl, fun _ h => (nomatch h)⟩

/-- Moving a reader does not keep it from reading on. -/
theorem ReadsOn.seek (h : ReadsOn image framing leaves extents r s) {position : Nat} :
    ReadsOn image framing leaves extents (r.seek position) s :=
  ⟨h.tells, h.length_eq, h.extents_eq, h.hasSector⟩

/-- Loading a sector, successful or not, leaves a reader that can read on. -/
theorem ReadsOn.load (h : ReadsOn image framing leaves extents r s)
    (hplace : locate r.extents r.position = some place) :
    ReadsOn image framing leaves extents ((r.load place.lsn).run s).1.2
      ((r.load place.lsn).run s).2 := by
  obtain ⟨result, s₁, hrun, hs₁, hloads⟩ := loads_load h.tells h.length_eq place.lsn
  rw [hrun]
  cases hloads with
  | cached _ => exact ⟨hs₁, h.length_eq, h.extents_eq, h.hasSector⟩
  | filled hsector =>
    refine ⟨hs₁, Image.length_of_readSector hsector, h.extents_eq, fun lsn hlsn => ?_⟩
    rw [h.extents_eq] at hplace
    exact ⟨r.position, place, hplace, Option.some.inj hlsn⟩
  | kept _ => exact ⟨hs₁, h.length_eq, h.extents_eq, h.hasSector⟩
  | spoilt hlength _ _ => exact ⟨hs₁, hlength.trans h.length_eq, h.extents_eq, h.hasSector⟩

/-- A coherent reader stays so where nothing spoils the buffer of a sector that it is known by. -/
theorem Coherent.load_of_neverSpoilt (hr : r.Coherent image framing)
    (hnever : NeverSpoilt image framing leaves extents)
    (h : ReadsOn image framing leaves extents r s)
    (hplace : locate r.extents r.position = some place) :
    ((r.load place.lsn).run s).1.2.Coherent image framing := by
  by_cases hcached : r.cached = some place.lsn
  · rw [load_cached hcached]
    exact hr
  obtain ⟨result, s₁, hrun, -, hloads⟩ := loads_load h.tells hr.length_eq place.lsn
  rw [hrun]
  cases hloads with
  | cached _ => exact hr
  | filled hsector =>
    refine ⟨Image.length_of_readSector hsector, fun other hother => ?_⟩
    cases hother
    exact hsector
  | kept _ => exact hr
  | spoilt hlength hwhole hleaves =>
    refine ⟨hlength.trans hr.length_eq, fun lsn hlsn => ?_⟩
    have hplace : HasSector extents place.lsn := ⟨r.position, place, h.extents_eq ▸ hplace, rfl⟩
    have hne : lsn ≠ place.lsn := fun heq => hcached (heq ▸ hlsn)
    rw [hnever lsn place.lsn (h.hasSector lsn hlsn) hplace hne hwhole _ _ hleaves]
    exact hr.readSector_eq lsn hlsn

end Kept

/-! ## What a read that succeeds delivers -/

structure Ready (image : Image) (framing : Framing) (r : FileReader) : Prop where
  length_eq : r.sector.length = sectorSize
  readSector_eq : ∀ place, locate r.extents r.position = some place →
    r.cached = some place.lsn → image.readSector framing place.lsn = .ok r.sector

/-- A reader whose buffer holds the sector that it is said to hold is ready, whatever it reads next. -/
theorem Coherent.ready (h : r.Coherent image framing) : r.Ready image framing :=
  ⟨h.length_eq, fun place _ hcached => h.readSector_eq place.lsn hcached⟩

/-- A reader that could load its sector has it, and is coherent again, whatever had failed before. -/
theorem Ready.coherent_of_load {place : FilePlace} (hr : r.Ready image framing)
    (hs : s.Tells image framing leaves) (hplace : locate r.extents r.position = some place)
    (hload : (r.load place.lsn).run s = ((.ok (), r'), s')) :
    image.readSector framing place.lsn = .ok r'.sector ∧ r'.Coherent image framing ∧
      s'.Tells image framing leaves := by
  obtain ⟨result, s₁, hrun, hs₁, hloads⟩ := loads_load hs hr.length_eq place.lsn
  obtain ⟨rfl, rfl⟩ := Prod.mk.inj (hload.symm.trans hrun)
  have hcached := (load_ok hload).1
  have hsector : image.readSector framing place.lsn = .ok r'.sector := by
    cases hloads with
    | cached h => exact hr.readSector_eq place hplace h
    | filled h => exact h
  refine ⟨hsector, ⟨Image.length_of_readSector hsector, fun lsn hlsn => ?_⟩, hs₁⟩
  cases hcached.symm.trans hlsn
  exact hsector

/-- A delivery without a failure gives the bytes of the file and stands behind them. -/
theorem deliver_right (hfile : ∀ x ∈ r.extents, x.LiesIn image framing)
    (hs : s.Tells image framing leaves) (hr : r.Ready image framing) {d : Delivery}
    (hrun : (r.deliver want).run s = (d, s')) (hnone : d.failure = none) :
    d.bytes = (extentBytes image framing r.extents).slice r.position want ∧
      d.reader.position = r.position + d.bytes.length ∧
      (r.Coherent image framing → d.reader.Coherent image framing) := by
  induction want using Nat.strongRecOn generalizing r s d with
  | ind want ih =>
    rcases deliver_cases hrun hnone with ⟨hend, rfl, rfl⟩ |
      ⟨place, r₁, s₁, later, hwant, hplace, hload, hlater, hlast, rfl⟩
    · refine ⟨?_, rfl, id⟩
      rcases hend with rfl | hplace
      · exact (List.take_zero).symm
      · exact (Bytes.slice_eq_nil (length_le_of_locate_eq_none hfile hplace)).symm
    · obtain ⟨sector, hsector, hsplit⟩ := slice_of_locate hfile hplace
      obtain ⟨hlength, hbytes⟩ := hsplit want
      obtain ⟨hbuffer, hr₁, hs₁⟩ := hr.coherent_of_load hs hplace hload
      cases hsector.symm.trans hbuffer
      obtain ⟨-, hposition, hextents⟩ := load_ok hload
      have hpos := place.available_pos
      obtain ⟨hrest, hstands, hcoherent⟩ := ih (want - min place.available want) (by omega)
        (by rw [seek_extents, hextents]; exact hfile) hs₁ (hr₁.seek _).ready hlater hlast
      rw [seek_extents, seek_position, hextents, hposition] at hrest
      rw [seek_position, hposition] at hstands
      refine ⟨?_, ?_, fun _ => hcoherent (hr₁.seek _)⟩
      · rw [hbytes, ← hrest]
      · rw [hstands, List.length_append, hlength, Nat.add_assoc]

/-! ## Calls -/

def Answer.isFailure : Answer → Bool
  | some (.error _, _) => true
  | _ => false

/-- A read that succeeds delivers without a failure, and its count is the number of bytes delivered. -/
theorem deliver_of_read {buffer bytes : Bytes} {count : Nat}
    (hread : (r.read buffer).run s = ((.ok count, bytes, r'), s')) :
    ∃ d, (r.deliver buffer.length).run s = (d, s') ∧ d.failure = none ∧ count = d.bytes.length ∧
      bytes = d.bytes ++ buffer.drop d.bytes.length ∧ r' = d.reader := by
  cases hrun : (r.deliver buffer.length).run s with
  | mk d s₁ =>
    cases hfailure : d.failure with
    | none =>
      rw [read_of_deliver hrun hfailure] at hread
      cases hread
      exact ⟨d, rfl, hfailure, rfl, rfl, rfl⟩
    | some failure =>
      rw [read, run_stateBind hrun, hfailure] at hread
      cases hread

/-- A read that succeeds where the buffer is right gives the bytes of the file, from where the reader
stood. -/
theorem read_right (hfile : ∀ x ∈ r.extents, x.LiesIn image framing)
    (hs : s.Tells image framing leaves) (hr : r.Ready image framing) {buffer bytes : Bytes}
    {count : Nat} (hread : (r.read buffer).run s = ((.ok count, bytes, r'), s')) :
    let content := extentBytes image framing r.extents
    count = min buffer.length (content.length - r.position) ∧
      bytes = content.slice r.position count ++ buffer.drop count ∧
      r'.position = r.position + count ∧
      (r.Coherent image framing → r'.Coherent image framing) := by
  obtain ⟨d, hrun, hnone, rfl, rfl, rfl⟩ := deliver_of_read hread
  obtain ⟨hbytes, hposition, hcoherent⟩ := deliver_right hfile hs hr hrun hnone
  have hcount : d.bytes.length = min buffer.length
      ((extentBytes image framing r.extents).length - r.position) := by
    rw [hbytes, Bytes.length_slice_eq_min]
  refine ⟨hcount, ?_, hposition, hcoherent⟩
  rw [hcount, ← Bytes.slice_eq_slice_min, ← hbytes]

/-- A read that succeeds leaves a reader that can read on. -/
theorem ReadsOn.read {extents : List Extent} (h : ReadsOn image framing leaves extents r s)
    {buffer bytes : Bytes} {count : Nat}
    (hread : (r.read buffer).run s = ((.ok count, bytes, r'), s')) :
    ReadsOn image framing leaves extents r' s' := by
  obtain ⟨d, hrun, -, -, -, rfl⟩ := deliver_of_read hread
  have hkept := deliver_keeps (ReadsOn image framing leaves extents)
    (fun _ _ _ h hplace => h.load hplace) (fun _ _ _ h => h.seek) h buffer.length
  rw [hrun] at hkept
  exact hkept

/-- Calls that do not fail leave the buffer as it should be, so that what they deliver can be relied on.
-/
theorem Coherent.performAll {extents : List Extent} (hfile : ∀ x ∈ extents, x.LiesIn image framing)
    (h : ReadsOn image framing leaves extents r s) (hr : r.Coherent image framing)
    (calls : List Call)
    (hok : ∀ answer ∈ ((performAll calls r).run s).1.1, answer.isFailure = false) :
    ((performAll calls r).run s).1.2.Coherent image framing := by
  induction calls generalizing r s with
  | nil => exact hr
  | cons call rest ih =>
    cases call with
    | seek position =>
      exact ih h.seek (hr.seek position) (List.forall_mem_cons.mp hok).2
    | read buffer =>
      cases hread : (r.read buffer).run s with
      | mk result s₁ =>
        obtain ⟨outcome, bytes, r₁⟩ := result
        rw [performAll_cons (perform_read hread) rfl] at hok ⊢
        obtain ⟨hfirst, hrest⟩ := List.forall_mem_cons.mp hok
        cases outcome with
        | error failure => cases hfirst
        | ok count =>
          have hr₁ := (read_right (h.extents_eq ▸ hfile) h.tells hr.ready hread).2.2.2 hr
          exact ih (h.read hread) hr₁ hrest

/-- A read that succeeds gives the bytes of the file, from the position on and as many as it
counts. -/
def ReadIsRight (image : Image) (framing : Framing) (r : FileReader) (s : SectorSource δ) : Prop :=
  ∀ (buffer bytes : Bytes) (count : Nat) (r' : FileReader) (s' : SectorSource δ),
    (r.read buffer).run s = ((.ok count, bytes, r'), s') →
      let content := extentBytes image framing r.extents
      count = min buffer.length (content.length - r.position) ∧
        bytes = content.slice r.position count ++ buffer.drop count ∧
        r'.position = r.position + count

/-- After any calls, whatever of them failed and whenever, a read that succeeds gives the bytes of the
file if nothing failed, or if what failed did not spoil the buffer, or if the position is not in the
sector that the buffer is known by. -/
theorem readIsRight_performAll (hs : s.Tells image framing leaves) {file : Entry}
    (hfile : ∀ x ∈ file.extents, x.LiesIn image framing) (calls : List Call) :
    let run := (performAll calls (ofEntry file)).run s
    let r := run.1.2
    (∀ answer ∈ run.1.1, answer.isFailure = false) ∨
        NeverSpoilt image framing leaves file.extents ∨
        (∀ place, locate file.extents r.position = some place → r.cached ≠ some place.lsn) →
      ReadIsRight image framing r run.2 := by
  intro run r hfine
  have hnew : ReadsOn image framing leaves file.extents (ofEntry file) s := readsOn_ofEntry hs
  have hr : ReadsOn image framing leaves file.extents r run.2 :=
    performAll_keeps _ (fun _ _ _ h hplace => h.load hplace) (fun _ _ _ h => h.seek) hnew calls
  have hready : r.Ready image framing := by
    rcases hfine with hok | hnever | helsewhere
    · exact (Coherent.performAll hfile hnew (coherent_ofEntry file) calls hok).ready
    · have hboth := performAll_keeps
        (fun r s => ReadsOn image framing leaves file.extents r s ∧
          r.Coherent image framing)
        (fun _ _ _ h hplace => ⟨h.1.load hplace, h.2.load_of_neverSpoilt hnever h.1 hplace⟩)
        (fun _ _ position h => ⟨h.1.seek, h.2.seek position⟩)
        ⟨hnew, coherent_ofEntry file⟩ calls
      exact hboth.2.ready
    · refine ⟨hr.length_eq, fun place hplace hcached => ?_⟩
      rw [hr.extents_eq] at hplace
      exact absurd hcached (helsewhere place hplace)
  intro buffer bytes count r' s' hread
  have hright := read_right (by rw [hr.extents_eq]; exact hfile) hr.tells hready hread
  exact ⟨hright.1, hright.2.1, hright.2.2.1⟩

/-- On a device in memory, whatever blocks cannot be read, every read that succeeds is right. -/
theorem readIsRight_memoryDevice {d : MemoryDevice} (hpos : 0 < d.blockSize.toNat) {file : Entry}
    (hfile : ∀ x ∈ file.extents, x.LiesIn (d.image hpos) framing) (calls : List Call) :
    let run := (performAll calls (ofEntry file)).run (.ofDevice d framing)
    ReadIsRight (d.image hpos) framing run.1.2 run.2 :=
  readIsRight_performAll (SectorSource.tells_ofDevice (MemoryDevice.toldBy_image hpos) framing)
    hfile calls (.inr (.inl (neverSpoilt_of_left_alone _)))

end Ecma119.FileReader
