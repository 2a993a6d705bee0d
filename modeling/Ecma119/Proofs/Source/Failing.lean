import Ecma119.Proofs.Run

/-!
# How reading can fail

Whatever the device does, reading sectors fails with a failure of the device and with no other.
`FailsWith` says of any work in which ways it can fail.
-/

namespace Ecma119

section FailsWith

variable {σ α β : Type} {P : Error → Prop}

/-- Work that fails in these ways only, from whatever state it starts. -/
def FailsWith (P : Error → Prop) (work : ExceptT Error (StateM σ) α) : Prop :=
  ∀ s failure s', work.run.run s = (.error failure, s') → P failure

namespace FailsWith

theorem pure (a : α) : FailsWith P (pure a : ExceptT Error (StateM σ) α) := by
  intro s failure s' hrun
  cases hrun

theorem throw {failure : Error} (h : P failure) :
    FailsWith P (throw failure : ExceptT Error (StateM σ) α) := by
  intro s _ s' hrun
  cases hrun
  exact h

/-- A run of two parts fails as one of them does, so that what holds of the failures of both holds of it.
-/
theorem bind {work : ExceptT Error (StateM σ) α} {next : α → ExceptT Error (StateM σ) β}
    (hwork : FailsWith P work) (hnext : ∀ a, FailsWith P (next a)) :
    FailsWith P (work >>= next) := by
  intro s failure s' hrun
  cases hfirst : work.run.run s with
  | mk outcome s₁ =>
    cases outcome with
    | ok a =>
      rw [run_bind_ok hfirst] at hrun
      exact hnext a s₁ failure s' hrun
    | error cause =>
      rw [run_bind_error hfirst] at hrun
      cases hrun
      exact hwork s failure s' hfirst

/-- Work that looks at its state first fails as it does whatever it sees there. -/
theorem get_bind {next : σ → ExceptT Error (StateM σ) β} (h : ∀ s, FailsWith P (next s)) :
    FailsWith P (get >>= next) := by
  intro s failure s' hrun
  rw [run_bind_ok run_get] at hrun
  exact h s s failure s' hrun

theorem modify (f : σ → σ) :
    FailsWith P (modify f : ExceptT Error (StateM σ) PUnit) := by
  intro s failure s' hrun
  cases hrun

theorem mono {Q : Error → Prop} {work : ExceptT Error (StateM σ) α} (h : FailsWith P work)
    (himp : ∀ failure, P failure → Q failure) : FailsWith Q work :=
  fun s failure s' hrun => himp failure (h s failure s' hrun)

theorem liftM {δ : Type} {result : Except FormatError α}
    (h : ∀ cause, result = .error cause → P (.format cause)) :
    FailsWith P (liftM result : SourceM δ α) := by
  intro s failure s' hrun
  rw [run_liftM_format] at hrun
  cases result with
  | ok a => cases hrun
  | error cause =>
    cases hrun
    exact h cause rfl

end FailsWith

end FailsWith

def Error.IsIo (failure : Error) : Prop := ∃ lba message, failure = .io lba message

namespace SectorSource

variable {δ : Type} [BlockDevice δ]

/-- If the length of a source cannot be told, that is a failure of the device. -/
theorem failsWith_byteLength : FailsWith Error.IsIo (byteLength : SourceM δ UInt64) := by
  refine .get_bind fun s => ?_
  split
  · exact .pure _
  · refine .bind (.get_bind fun t => ?_) fun count => ?_
    · split
      · exact .pure _
      · exact .throw ⟨_, _, rfl⟩
    · exact .get_bind fun t => .bind (.modify _) fun _ => .pure _

omit [BlockDevice δ] in
theorem failsWith_sectorOffset (lsn : UInt32) :
    FailsWith Error.IsIo (sectorOffset lsn : SourceM δ Nat) := by
  refine .bind (.get_bind fun s => .pure _) fun framing => ?_
  split
  · exact .pure _
  · exact .throw ⟨_, _, rfl⟩

/-- Blocks are left unread by a failure of the device, which is reported for the first of them. -/
theorem isIo_of_fillBlocks {first : Nat} {destination : Bytes} {s : SectorSource δ}
    {failure : Error} (h : ((fillBlocks first destination).run s).1.outcome = .error failure) :
    failure.IsIo := by
  have hrun : ((fillBlocks first destination).run s).1.outcome =
      (BlockDevice.readBlocks s.device first destination).outcome.mapError (Error.io first) := rfl
  rw [hrun] at h
  cases houtcome : (BlockDevice.readBlocks s.device first destination).outcome with
  | ok => rw [houtcome] at h; cases h
  | error message =>
    rw [houtcome] at h
    cases h
    exact ⟨_, _, rfl⟩

/-- A destination is left unfilled by a failure of the device only, or because it goes past the end. -/
theorem isIo_of_fillBytes {offset : Nat} {destination : Bytes} {s : SectorSource δ}
    {failure : Error} (h : ((fillBytes offset destination).run s).1.outcome = .error failure) :
    failure.IsIo := by
  rw [fillBytes] at h
  split at h
  · cases h
  rw [run_stateBind run_stateGet] at h
  cases hlength : (byteLength (δ := δ)).run.run s with
  | mk result s₁ =>
    rw [run_stateBind hlength] at h
    cases result with
    | error cause =>
      cases h
      exact failsWith_byteLength s failure s₁ hlength
    | ok length =>
      dsimp only at h
      split at h
      · cases h
        exact ⟨_, _, rfl⟩
      split at h
      · exact isIo_of_fillBlocks h
      -- The blocks around the bytes are read first, and then nothing can fail.
      · generalize hblocks : fillBlocks (δ := δ) (offset / (BlockDevice.blockSize s.device).toNat) _ =
          blocks at h
        cases hfill : blocks.run s₁ with
        | mk fill s₂ =>
          rw [run_stateBind hfill] at h
          cases houtcome : fill.outcome with
          | ok => rw [houtcome] at h; cases h
          | error cause =>
            rw [houtcome] at h
            cases h
            rw [← hblocks] at hfill
            exact isIo_of_fillBlocks (by rw [hfill]; exact houtcome)

/-- A sector is left unread by a failure of the device only, or because it lies before the start. -/
theorem isIo_of_fillSector {lsn : UInt32} {destination : Bytes} {s : SectorSource δ}
    {failure : Error} (h : ((fillSector lsn destination).run s).1.outcome = .error failure) :
    failure.IsIo := by
  rw [fillSector] at h
  cases hoffset : (sectorOffset (δ := δ) lsn).run.run s with
  | mk result s₁ =>
    rw [run_stateBind hoffset] at h
    cases result with
    | error cause =>
      cases h
      exact failsWith_sectorOffset lsn s failure s₁ hoffset
    | ok offset => exact isIo_of_fillBytes h

omit [BlockDevice δ] in
/-- Bytes that are read into a new buffer fail to be read as the filling of a buffer fails. -/
theorem failsWith_filled {P : Error → Prop} {length : Nat}
    {fill : Bytes → StateM (SectorSource δ) Fill}
    (hfill : ∀ destination s failure, ((fill destination).run s).1.outcome = .error failure →
      P failure) : FailsWith P (filled length fill) := by
  intro s failure s' hrun
  cases hfirst : (fill (Bytes.zeros length)).run s with
  | mk result s₁ =>
    obtain ⟨outcome, bytes⟩ := result
    rw [filled, run_bind_ok (run_liftState hfirst)] at hrun
    cases outcome with
    | ok => cases hrun
    | error cause =>
      cases hrun
      exact hfill (Bytes.zeros length) s failure (by rw [hfirst])

/-- Reading bytes fails as the device does, or because they are not all there. -/
theorem failsWith_readBytes (offset length : Nat) :
    FailsWith Error.IsIo (readBytes offset length : SourceM δ Bytes) :=
  failsWith_filled fun _ _ _ => isIo_of_fillBytes

/-- A sector that cannot be read is reported as a failure of the device, as it is for one that lies
before the start. -/
theorem failsWith_readSector (lsn : UInt32) :
    FailsWith Error.IsIo (readSector lsn : SourceM δ Bytes) :=
  failsWith_filled fun _ _ _ => isIo_of_fillSector

/-- Reading sectors one by one fails as reading one of them does. -/
theorem failsWith_readEachSector (lsn : UInt32) (count : Nat) :
    FailsWith Error.IsIo (readEachSector lsn count : SourceM δ Bytes) := by
  induction count generalizing lsn with
  | zero => exact .pure _
  | succ count ih =>
    exact (failsWith_readSector lsn).bind fun _ => (ih (lsn + 1)).bind fun _ => .pure _

/-- Sectors are left unread by a failure of the device only, which includes sectors past the end. -/
theorem failsWith_readSectors (lsn count : UInt32) :
    FailsWith Error.IsIo (readSectors lsn count : SourceM δ Bytes) := by
  refine (failsWith_sectorOffset lsn).bind fun offset => failsWith_byteLength.bind fun length => ?_
  have hread : FailsWith Error.IsIo (getFraming >>= fun framing =>
      if framing.isContiguous then readBytes offset (count.toNat * sectorSize)
      else readEachSector lsn count.toNat : SourceM δ Bytes) := by
    refine .bind (.get_bind fun s => .pure _) fun framing => ?_
    split
    · exact failsWith_readBytes _ _
    · exact failsWith_readEachSector _ _
  dsimp only
  split
  · exact .bind (.throw ⟨_, _, rfl⟩) fun _ => hread
  · exact hread

end SectorSource

end Ecma119
