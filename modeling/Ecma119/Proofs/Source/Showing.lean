import Ecma119.Proofs.Source.Serving

/-!
# Sectors that can be relied on

`Shows sector s` says of a source that each of its sectors comes out the same whenever it is read:
as the bytes or the failure that `sector` tells. Nothing else has to be known of the device and the
framing.
-/

namespace Ecma119.SectorSource

variable {δ : Type} [BlockDevice δ] {α : Type}

/-- Reading a sector comes to what `sector` tells, now and after any sectors have been read. -/
def Shows (sector : UInt32 → Except Error Bytes) (s : SectorSource δ) : Prop :=
  ∃ states : SectorSource δ → Prop, states s ∧ ∀ t, states t → ∀ lsn,
    ∃ t', (readSector lsn).run.run t = (sector lsn, t') ∧ states t'

variable {sector : UInt32 → Except Error Bytes} {s : SectorSource δ}

/-- A source that shows sectors gives the one that is asked for, or its failure, and goes on showing
them. -/
theorem Shows.readSector (h : s.Shows sector) (lsn : UInt32) :
    ∃ s', (readSector lsn).run.run s = (sector lsn, s') ∧ s'.Shows sector := by
  obtain ⟨states, hs, hstates⟩ := h
  obtain ⟨s', hrun, hs'⟩ := hstates s hs lsn
  exact ⟨s', hrun, states, hs', hstates⟩

/-- A source that serves an image shows the sectors of it, so that all that is said of shown sectors
applies. -/
theorem Serves.shows {image : Image} {framing : Framing} (h : s.Serves image framing) :
    s.Shows (image.readSector framing) :=
  ⟨fun t => t.Serves image framing, h, fun t ht lsn => yields_readSector lsn t ht⟩

/-- Where a sector is read first, what it comes to decides how the work goes on, from a source that shows
as before. -/
theorem Shows.run_readSector_bind (h : s.Shows sector) {lsn : UInt32} {bytes : Bytes}
    (hsector : sector lsn = .ok bytes) :
    ∃ s', s'.Shows sector ∧ ∀ next : Bytes → SourceM δ α,
      (SectorSource.readSector lsn >>= next).run.run s = (next bytes).run.run s' := by
  obtain ⟨s', hrun, hs'⟩ := h.readSector lsn
  rw [hsector] at hrun
  exact ⟨s', hs', fun next => run_bind_ok hrun⟩

/-- Work that begins with a sector succeeds only if the sector can be read and the rest succeeds on it.
-/
theorem Shows.of_readSector_bind (h : s.Shows sector) {lsn : UInt32} {next : Bytes → SourceM δ α}
    {a : α} {s' : SectorSource δ}
    (hrun : (SectorSource.readSector lsn >>= next).run.run s = (.ok a, s')) :
    ∃ bytes between, sector lsn = .ok bytes ∧ between.Shows sector ∧
      (next bytes).run.run between = (.ok a, s') := by
  obtain ⟨bytes, between, hread, hnext⟩ := run_bind_eq_ok hrun
  obtain ⟨between', hread', hshows⟩ := h.readSector lsn
  obtain ⟨hsector, rfl⟩ := Prod.mk.inj (hread'.symm.trans hread)
  exact ⟨bytes, between', hsector, hshows, hnext⟩

end Ecma119.SectorSource
