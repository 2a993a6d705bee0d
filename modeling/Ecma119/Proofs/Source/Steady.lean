import Ecma119.Proofs.Device.Steady
import Ecma119.Proofs.Source.Following
import Ecma119.Proofs.Source.Showing

/-!
# Sources on a device that does not change

Two sources on the same steady device under the same framing cannot be told apart, whatever has been
read from either: `agree_onDevice`. What follows from that alone is told for any sources that agree,
in `SourcesAgree`: sectors, and with them everything that is built on sectors.
-/

namespace Ecma119

/-! ## Sources that agree -/

/-- Related sources have one framing, and filling a destination from one comes to what filling it
from the other comes to. -/
structure SourcesAgree {δ ε : Type} [BlockDevice δ] [BlockDevice ε]
    (R : SectorSource δ → SectorSource ε → Prop) : Prop where
  framing_eq : ∀ s t, R s t → s.framing = t.framing
  byteLength :
    Agrees R (SectorSource.byteLength (δ := δ)).run (SectorSource.byteLength (δ := ε)).run
  fillBytes : ∀ offset destination,
    Agrees R (SectorSource.fillBytes offset destination) (SectorSource.fillBytes offset destination)

namespace SourcesAgree

open SectorSource

variable {δ ε : Type} [BlockDevice δ] [BlockDevice ε] {R : SectorSource δ → SectorSource ε → Prop}
variable {carried : Error → Prop}

/-- Sources that agree have one framing. -/
theorem getFraming (h : SourcesAgree R) :
    Follows R carried (getFraming (δ := δ)) (getFraming (δ := ε)) :=
  .get_bind fun s t hR => by
    rw [h.framing_eq s t hR]
    exact .pure _

/-- Sources that agree find a sector at the same offset, as they have one framing. -/
theorem sectorOffset (h : SourcesAgree R) (lsn : UInt32) :
    Follows R carried (sectorOffset (δ := δ) lsn) (sectorOffset (δ := ε) lsn) := by
  refine h.getFraming.bind fun framing => ?_
  cases framing.byteOffset? lsn with
  | some offset => exact .pure offset
  | none => exact .throw _

/-- Filling a buffer with a sector does the same on sources that agree, also when it fails. -/
theorem fillSector (h : SourcesAgree R) (lsn : UInt32) (destination : Bytes) :
    Agrees R (fillSector lsn destination) (fillSector lsn destination) := by
  refine (Agrees.of_follows (h.sectorOffset lsn)).bind fun result => ?_
  cases result with
  | error failure => exact .pure _
  | ok offset => exact h.fillBytes offset destination

omit [BlockDevice δ] [BlockDevice ε] in
/-- Bytes that are read into a new buffer are alike where the filling of buffers is. -/
theorem filled {length : Nat} {fill : Bytes → StateM (SectorSource δ) Fill}
    {fill' : Bytes → StateM (SectorSource ε) Fill}
    (hfill : ∀ destination, Agrees R (fill destination) (fill' destination)) :
    Follows R carried (filled length fill) (filled length fill') := by
  refine Follows.bind (hfill _).liftState fun result => ?_
  obtain ⟨outcome, bytes⟩ := result
  cases outcome with
  | ok => exact .pure bytes
  | error failure => exact .throw failure

theorem readBytes (h : SourcesAgree R) (offset length : Nat) :
    Follows R carried (readBytes (δ := δ) offset length) (readBytes (δ := ε) offset length) :=
  filled (h.fillBytes offset)

theorem readSector (h : SourcesAgree R) (lsn : UInt32) :
    Follows R carried (readSector (δ := δ) lsn) (readSector (δ := ε) lsn) :=
  filled (h.fillSector lsn)

theorem readEachSector (h : SourcesAgree R) (lsn : UInt32) (count : Nat) :
    Follows R carried (readEachSector (δ := δ) lsn count) (readEachSector (δ := ε) lsn count) := by
  induction count generalizing lsn with
  | zero => exact .pure []
  | succ count ih =>
    exact (h.readSector lsn).bind fun sector => (ih (lsn + 1)).bind fun rest => .pure _

/-- Sectors are read alike at once from sources that agree, refusals included. -/
theorem readSectors (h : SourcesAgree R) (lsn count : UInt32) :
    Follows R carried (readSectors (δ := δ) lsn count) (readSectors (δ := ε) lsn count) := by
  refine (h.sectorOffset lsn).bind fun offset => h.byteLength.follows.bind fun length => ?_
  dsimp only
  split
  · exact .bind (.throw _) fun _ => h.getFraming.bind fun framing => by
      split
      · exact h.readBytes offset _
      · exact h.readEachSector lsn _
  · refine h.getFraming.bind fun framing => ?_
    split
    · exact h.readBytes offset _
    · exact h.readEachSector lsn _

/-- Everything that is built on sectors agrees too, as all of it is made of these two reads. -/
theorem sectorsFollow (h : SourcesAgree R) : SectorsFollow R carried :=
  ⟨h.readSector, h.readSectors⟩

end SourcesAgree

/-! ## Sources on one device -/

/-- The number of bytes on a device as a source counts them, or why that is not known. -/
def BlockDevice.length? {δ : Type} [BlockDevice δ] (device : δ) : Except Error UInt64 :=
  match blockCount device with
  | .ok count => .ok (count * (blockSize device).toUInt64)
  | .error message => .error (.io 0 message)

namespace SectorSource

variable {δ : Type} [BlockDevice δ] {device : δ} {framing : Framing} {s : SectorSource δ}

/-- The source cannot be told from one that has just been made of the device, under this framing. -/
structure OnDevice (device : δ) (framing : Framing) (s : SectorSource δ) : Prop where
  repeats : BlockDevice.Repeats device s.device
  framing_eq : s.framing = framing
  knownLength : ∀ length ∈ s.knownLength, BlockDevice.length? device = .ok length

/-- A source that has just been made of a steady device is on that device. -/
theorem onDevice_ofDevice (h : BlockDevice.IsSteady device) (framing : Framing) :
    (ofDevice device framing).OnDevice device framing :=
  ⟨h, rfl, fun _ hlength => nomatch hlength⟩

/-- A source stays on its device when it is given another framing, as nothing that it has cached depends
on that. -/
theorem OnDevice.setFraming (h : s.OnDevice device framing) (other : Framing) :
    ({ s with framing := other } : SectorSource δ).OnDevice device other :=
  ⟨h.repeats, rfl, h.knownLength⟩

/-- The length that has been told is the one that is told again, whether it was kept or not. -/
theorem OnDevice.run_byteLength (h : s.OnDevice device framing) :
    ∃ s', (byteLength (δ := δ)).run.run s = (BlockDevice.length? device, s') ∧
      s'.OnDevice device framing := by
  cases hknown : s.knownLength with
  | some length =>
    refine ⟨s, ?_, h⟩
    rw [h.knownLength length hknown, run_byteLength_of_known hknown]
  | none =>
    have hanswers := h.repeats.answersLike
    rw [BlockDevice.length?]
    cases hcount : BlockDevice.blockCount device with
    | error message =>
      exact ⟨s, run_byteLength_of_error hknown (hanswers.blockCount_eq.trans hcount), h⟩
    | ok count =>
      rw [run_byteLength_of_blockCount hknown (hanswers.blockCount_eq.trans hcount),
        hanswers.blockSize_eq]
      refine ⟨_, rfl, h.repeats, h.framing_eq, fun length hlength => ?_⟩
      cases hlength
      rw [BlockDevice.length?, hcount]

def BothOn (device : δ) (framing : Framing) (s t : SectorSource δ) : Prop :=
  s.OnDevice device framing ∧ t.OnDevice device framing

/-- Blocks are read alike from sources on one steady device, whatever either of them has read before. -/
theorem agree_fillBlocks (first : Nat) (destination : Bytes) :
    Agrees (BothOn device framing) (fillBlocks first destination)
      (fillBlocks first destination) := by
  have hfill (s : SectorSource δ) (hs : s.OnDevice device framing) :
      ((fillBlocks first destination).run s).1 =
        ⟨(BlockDevice.readBlocks device first destination).outcome.mapError (Error.io first),
          (BlockDevice.readBlocks device first destination).destination⟩ ∧
      ((fillBlocks first destination).run s).2.OnDevice device framing := by
    obtain ⟨houtcome, hbytes, hnext⟩ := hs.repeats.answersLike.readBlocks first destination
    refine ⟨?_, hnext, hs.framing_eq, hs.knownLength⟩
    rw [← houtcome, ← hbytes]
    rfl
  rintro s t ⟨hs, ht⟩
  exact ⟨(hfill s hs).1.trans (hfill t ht).1.symm, (hfill s hs).2, (hfill t ht).2⟩

/-- Sources on one steady device cannot be told apart, whatever has been read through either of them. -/
theorem agree_onDevice (device : δ) (framing : Framing) : SourcesAgree (BothOn device framing) := by
  have hlength :
      Agrees (BothOn device framing) (byteLength (δ := δ)).run (byteLength (δ := δ)).run := by
    rintro s t ⟨hs, ht⟩
    obtain ⟨s', hrun, hs'⟩ := hs.run_byteLength
    obtain ⟨t', hrun', ht'⟩ := ht.run_byteLength
    rw [hrun, hrun']
    exact ⟨rfl, hs', ht'⟩
  refine ⟨fun s t ⟨hs, ht⟩ => hs.framing_eq.trans ht.framing_eq.symm, hlength, ?_⟩
  intro offset destination
  rw [fillBytes]
  split
  · exact .pure _
  · refine .get_bind fun s t ⟨hs, ht⟩ => ?_
    rw [hs.repeats.answersLike.blockSize_eq, ht.repeats.answersLike.blockSize_eq]
    refine hlength.bind fun result => ?_
    cases result with
    | error failure => exact .pure _
    | ok length =>
      dsimp only
      split
      · exact .pure _
      split
      · exact agree_fillBlocks _ _
      · refine (agree_fillBlocks _ _).bind fun fill => ?_
        cases fill.outcome with
        | error failure => exact .pure _
        | ok => exact .pure _

/-- What has been read before does not change what work comes to, and the source stays on its device. -/
theorem OnDevice.run_eq {α : Type} {work : SourceM δ α} (h : s.OnDevice device framing)
    (hsteady : BlockDevice.IsSteady device)
    (hwork : Follows (BothOn device framing) (fun _ => True) work work) :
    ∃ s', work.run.run s = ((work.run.run (ofDevice device framing)).1, s') ∧
      s'.OnDevice device framing := by
  obtain ⟨hsame, hs', -⟩ :=
    Agrees.of_follows hwork s (ofDevice device framing) ⟨h, onDevice_ofDevice hsteady framing⟩
  exact ⟨(work.run.run s).2, Prod.ext hsame rfl, hs'⟩

/-- A source on a steady device shows the sectors that a new one would read. So what is known of
sources that show their sectors is known on every device that does not change. -/
theorem OnDevice.shows (h : s.OnDevice device framing) (hsteady : BlockDevice.IsSteady device) :
    s.Shows fun lsn => ((readSector lsn).run.run (ofDevice device framing)).1 :=
  ⟨fun t => t.OnDevice device framing, h,
    fun _ ht lsn => ht.run_eq hsteady ((agree_onDevice device framing).readSector lsn)⟩

end SectorSource

end Ecma119
