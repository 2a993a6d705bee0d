import Ecma119.Proofs.Bytes
import Ecma119.Proofs.Device.Image
import Ecma119.Proofs.Run
import Ecma119.Proofs.Source.Framing
import Ecma119.Source

/-!
# Sectors of an image

`Image.readBytes`, `Image.readSector` and `Image.readSectors` tell what there is to be read, without a
device: either bytes of the image or the failure that a request meets. A source that serves an image
under a framing gives exactly that, and goes on serving it. `Yields` says so of any work.
-/

namespace Ecma119

theorem sectorSize_pos : 0 < sectorSize := by decide

/-! ## What there is to be read -/

namespace Image

def readBytes (image : Image) (offset length : Nat) : Except Error Bytes :=
  if length = 0 then .ok []
  else if image.bytes.length < offset + length then
    .error (.io (offset / image.blockSize) "read past end of source")
  else .ok (image.bytes.slice offset length)

/-- The offset of a sector's data. -/
def sectorOffset (framing : Framing) (lsn : UInt32) : Except Error Nat :=
  match framing.byteOffset? lsn with
  | some offset => .ok offset
  | none => .error (.io lsn.toNat "sector lies before start of source")

/-- The data of a sector under a framing, or why there is none: it lies before the image, or goes past
its end. -/
def readSector (image : Image) (framing : Framing) (lsn : UInt32) : Except Error Bytes := do
  image.readBytes (← sectorOffset framing lsn) sectorSize

def readEachSector (image : Image) (framing : Framing) (lsn : UInt32) : Nat → Except Error Bytes
  | 0 => .ok []
  | count + 1 => do
    let sector ← image.readSector framing lsn
    let rest ← image.readEachSector framing (lsn + 1) count
    return sector ++ rest

/-- The next `count` sectors. That they lie in the image is asked of their length without gaps, as
sources do. -/
def readSectors (image : Image) (framing : Framing) (lsn count : UInt32) : Except Error Bytes := do
  let length := count.toNat * sectorSize
  let offset ← sectorOffset framing lsn
  if image.bytes.length < offset + length then
    throw (.io lsn.toNat "extent runs past end of source")
  if framing.isContiguous then image.readBytes offset length
  else image.readEachSector framing lsn count.toNat

section ReadSector

variable {image : Image} {framing : Framing} {lsn : UInt32} {offset : Nat}

/-- An image finds a sector where a source does: where its framing says. -/
theorem sectorOffset_eq_ok :
    sectorOffset framing lsn = .ok offset ↔ framing.byteOffset? lsn = some offset := by
  rw [sectorOffset]
  cases framing.byteOffset? lsn with
  | none => simp
  | some other => simp

/-- A sector that is found is read as bytes at its offset. -/
theorem readSector_eq (hoffset : framing.byteOffset? lsn = some offset) :
    image.readSector framing lsn = image.readBytes offset sectorSize := by
  rw [readSector, sectorOffset_eq_ok.mpr hoffset]
  rfl

/-- A sector can be read exactly if it is found and ends no later than the image does. -/
theorem readSector_eq_ok {sector : Bytes} :
    image.readSector framing lsn = .ok sector ↔
      ∃ offset, framing.byteOffset? lsn = some offset ∧
        offset + sectorSize ≤ image.bytes.length ∧ sector = image.bytes.slice offset sectorSize := by
  cases hoffset : framing.byteOffset? lsn with
  | none =>
    rw [readSector, sectorOffset, hoffset]
    exact ⟨fun h => (nomatch h), fun ⟨_, h, _⟩ => (nomatch h)⟩
  | some offset =>
    rw [readSector_eq hoffset, readBytes, if_neg (by decide)]
    constructor
    · intro h
      split at h
      · cases h
      · cases h
        exact ⟨offset, rfl, by omega, rfl⟩
    · rintro ⟨offset', heq, hend, rfl⟩
      cases heq
      rw [if_neg (by omega)]

/-- A sector that the image does not have the end of is a failure, which names the block where the sector
starts. -/
theorem readSector_of_length_lt (hoffset : framing.byteOffset? lsn = some offset)
    (hend : image.bytes.length < offset + sectorSize) :
    image.readSector framing lsn =
      .error (.io (offset / image.blockSize) "read past end of source") := by
  rw [readSector_eq hoffset, readBytes, if_neg (by decide), if_pos hend]

/-- A sector that can be read has its full length, even in an image that is not made of whole sectors. -/
theorem length_of_readSector {sector : Bytes} (h : image.readSector framing lsn = .ok sector) :
    sector.length = sectorSize := by
  obtain ⟨offset, -, hend, rfl⟩ := readSector_eq_ok.mp h
  exact Bytes.length_slice hend

/-- Sectors can be read one by one if the first can be read and then the others can. -/
theorem readEachSector_succ_eq_ok {count : Nat} {bytes : Bytes} :
    image.readEachSector framing lsn (count + 1) = .ok bytes ↔
      ∃ sector rest, image.readSector framing lsn = .ok sector ∧
        image.readEachSector framing (lsn + 1) count = .ok rest ∧ bytes = sector ++ rest := by
  rw [readEachSector]
  cases image.readSector framing lsn with
  | error failure => exact ⟨fun h => (nomatch h), fun ⟨_, _, h, _⟩ => (nomatch h)⟩
  | ok sector =>
    show (image.readEachSector framing (lsn + 1) count >>= fun rest =>
      .ok (sector ++ rest)) = _ ↔ _
    cases image.readEachSector framing (lsn + 1) count with
    | error failure => exact ⟨fun h => (nomatch h), fun ⟨_, _, _, h, _⟩ => (nomatch h)⟩
    | ok rest =>
      constructor
      · intro h
        cases h
        exact ⟨sector, rest, rfl, rfl, rfl⟩
      · rintro ⟨_, _, hsector, hrest, rfl⟩
        cases hsector
        cases hrest
        rfl

/-- Sectors of which the first is found are refused if they go past the end of the image. Otherwise they
are read as bytes if there are no gaps between them, and one by one if there are. -/
theorem readSectors_eq {count : UInt32} (hoffset : framing.byteOffset? lsn = some offset) :
    image.readSectors framing lsn count =
      if image.bytes.length < offset + count.toNat * sectorSize then
        .error (.io lsn.toNat "extent runs past end of source")
      else if framing.isContiguous then image.readBytes offset (count.toNat * sectorSize)
      else image.readEachSector framing lsn count.toNat := by
  rw [readSectors, sectorOffset_eq_ok.mpr hoffset]
  rfl

end ReadSector

end Image

/-- What filling the destination comes to where a read comes to this result. -/
def Fill.ofRead (destination : Bytes) : Except Error Bytes → Fill
  | .ok bytes => ⟨.ok (), bytes⟩
  | .error failure => ⟨.error failure, destination⟩

namespace SectorSource

variable {δ : Type} [BlockDevice δ] {α β : Type}

/-- The source gives the sectors of the image under the framing. -/
structure Serves (image : Image) (framing : Framing) (s : SectorSource δ) : Prop where
  held : image.HeldBy s.device
  framing_eq : s.framing = framing
  knownLength_eq : ∀ length ∈ s.knownLength, length = .ofNat image.bytes.length

variable {image : Image} {framing : Framing} {s : SectorSource δ}

/-- A source that has not been read serves the image on its device, under any framing. -/
theorem serves_ofDevice {device : δ} (h : image.HeldBy device) (framing : Framing) :
    (ofDevice device framing).Serves image framing :=
  ⟨h, rfl, fun _ hlength => nomatch hlength⟩

/-- A source that serves an image does so under any framing that it is given. -/
theorem Serves.setFraming (h : s.Serves image framing) (other : Framing) :
    ({ s with framing := other } : SectorSource δ).Serves image other :=
  ⟨h.held, rfl, h.knownLength_eq⟩

/-- Work that comes to `result` on every source that serves the image, and leaves it serving. -/
def Yields (image : Image) (framing : Framing) (work : SourceM δ α) (result : Except Error α) :
    Prop :=
  ∀ s : SectorSource δ, s.Serves image framing →
    ∃ s', work.run.run s = (result, s') ∧ s'.Serves image framing

namespace Yields

theorem pure (a : α) : Yields image framing (pure a : SourceM δ α) (.ok a) :=
  fun s hs => ⟨s, run_pure a, hs⟩

theorem throw (failure : Error) :
    Yields image framing (throw failure : SourceM δ α) (.error failure) :=
  fun s hs => ⟨s, run_throw failure, hs⟩

/-- What comes after a part that succeeds decides: the whole yields what the second part does. -/
theorem bind_ok {work : SourceM δ α} {next : α → SourceM δ β} {a : α} {result : Except Error β}
    (hwork : Yields image framing work (.ok a)) (hnext : Yields image framing (next a) result) :
    Yields image framing (work >>= next) result := by
  intro s hs
  obtain ⟨s', hrun, hs'⟩ := hwork s hs
  rw [run_bind_ok hrun]
  exact hnext s' hs'

theorem bind_error {work : SourceM δ α} {next : α → SourceM δ β} {failure : Error}
    (hwork : Yields image framing work (.error failure)) :
    Yields image framing (work >>= next) (.error failure) := by
  intro s hs
  obtain ⟨s', hrun, hs'⟩ := hwork s hs
  exact ⟨s', run_bind_error hrun, hs'⟩

/-- Two parts come to what their results come to one after the other, failures included. -/
theorem bind {work : SourceM δ α} {next : α → SourceM δ β} {first : Except Error α}
    {later : α → Except Error β} (hwork : Yields image framing work first)
    (hnext : ∀ a, Yields image framing (next a) (later a)) :
    Yields image framing (work >>= next) (first >>= later) := by
  cases first with
  | ok a => exact hwork.bind_ok (hnext a)
  | error failure => exact hwork.bind_error

/-- An image that a source serves has no more bytes than can be counted in 64 bits. -/
theorem of_length_lt {work : SourceM δ α} {result : Except Error α}
    (h : image.bytes.length < 2 ^ 64 → Yields image framing work result) :
    Yields image framing work result :=
  fun s hs => h hs.held.length_lt s hs

theorem liftM (result : Except FormatError α) :
    Yields image framing (liftM result : SourceM δ α) (result.mapError .format) :=
  fun s hs => ⟨s, run_liftM_format result s, hs⟩

end Yields

/-! ## Filling a destination -/

section Steps

variable {s₁ s₂ : SectorSource δ} {offset : Nat} {length : UInt64} {destination : Bytes} {fill : Fill}

/-- Blocks are filled in with what the device reads, and its failures are reported for the first block.
-/
theorem run_fillBlocks_of_read {first : Nat} {read : BlockRead δ}
    (h : BlockDevice.readBlocks s.device first destination = read) :
    (fillBlocks first destination).run s =
      (⟨read.outcome.mapError (Error.io first), read.destination⟩,
        { s with device := read.device }) := by
  rw [← h]
  rfl

/-- Without a length nothing is filled, as no request could be held against it. -/
theorem fillBytes_error {failure : Error} (hne : destination ≠ [])
    (hlength : (byteLength (δ := δ)).run.run s = (.error failure, s₁)) :
    (fillBytes offset destination).run s = (⟨.error failure, destination⟩, s₁) := by
  rw [fillBytes, if_neg (mt List.isEmpty_iff.mp hne), run_stateBind run_stateGet,
    run_stateBind hlength]
  rfl

/-- Nothing is filled from past the end: the request is refused before the device is asked. -/
theorem fillBytes_past (hne : destination ≠ [])
    (hlength : (byteLength (δ := δ)).run.run s = (.ok length, s₁))
    (hpast : length.toNat < offset + destination.length) :
    (fillBytes offset destination).run s =
      (⟨.error (.io (offset / (BlockDevice.blockSize s.device).toNat) "read past end of source"),
        destination⟩, s₁) := by
  rw [fillBytes, if_neg (mt List.isEmpty_iff.mp hne), run_stateBind run_stateGet,
    run_stateBind hlength]
  dsimp only
  rw [if_pos hpast]
  rfl

/-- Whole blocks are read into the destination itself, in one read. -/
theorem fillBytes_whole (hne : destination ≠ [])
    (hlength : (byteLength (δ := δ)).run.run s = (.ok length, s₁))
    (hend : offset + destination.length ≤ length.toNat)
    (hfirst : (BlockDevice.blockSize s.device).toNat ∣ offset)
    (hwhole : (BlockDevice.blockSize s.device).toNat ∣ destination.length) :
    (fillBytes offset destination).run s =
      (fillBlocks (offset / (BlockDevice.blockSize s.device).toNat) destination).run s₁ := by
  rw [fillBytes, if_neg (mt List.isEmpty_iff.mp hne), run_stateBind run_stateGet,
    run_stateBind hlength]
  dsimp only
  rw [if_neg (Nat.not_lt.mpr hend),
    if_pos ⟨Nat.mod_eq_zero_of_dvd hfirst, Nat.mod_eq_zero_of_dvd hwhole⟩]

/-- For anything else the blocks around it are read, and the destination is not touched if that
fails. -/
theorem fillBytes_around (hne : destination ≠ [])
    (hlength : (byteLength (δ := δ)).run.run s = (.ok length, s₁))
    (hend : offset + destination.length ≤ length.toNat)
    (hpart : ¬ ((BlockDevice.blockSize s.device).toNat ∣ offset ∧
      (BlockDevice.blockSize s.device).toNat ∣ destination.length))
    (hfill :
      let blockSize := (BlockDevice.blockSize s.device).toNat
      let first := offset / blockSize
      let blocks := (offset + destination.length + blockSize - 1) / blockSize - first
      (fillBlocks first (Bytes.zeros (blocks * blockSize))).run s₁ = (fill, s₂)) :
    (fillBytes offset destination).run s =
      (match fill.outcome with
        | .error failure => ⟨.error failure, destination⟩
        | .ok () =>
          let blockSize := (BlockDevice.blockSize s.device).toNat
          ⟨.ok (), fill.destination.slice (offset - offset / blockSize * blockSize)
            destination.length⟩, s₂) := by
  rw [fillBytes, if_neg (mt List.isEmpty_iff.mp hne), run_stateBind run_stateGet,
    run_stateBind hlength]
  dsimp only
  rw [if_neg (Nat.not_lt.mpr hend), if_neg fun h =>
    hpart ⟨Nat.dvd_of_mod_eq_zero h.1, Nat.dvd_of_mod_eq_zero h.2⟩, run_stateBind hfill]
  obtain ⟨outcome, bytes⟩ := fill
  cases outcome <;> rfl

end Steps

/-! ## What the source gives -/

omit [BlockDevice δ] in
/-- Where a sector lies is told by the framing alone, so that the source stays as it is. -/
theorem run_sectorOffset (s : SectorSource δ) (lsn : UInt32) :
    (sectorOffset lsn : SourceM δ Nat).run.run s = (Image.sectorOffset s.framing lsn, s) := by
  have hframing : (getFraming : SourceM δ Framing).run.run s = (.ok s.framing, s) := rfl
  rw [sectorOffset, run_bind_ok hframing, Image.sectorOffset]
  cases s.framing.byteOffset? lsn with
  | none => exact run_throw _
  | some offset => exact run_pure offset

section ByteLength

variable {known count : UInt64} {message : String}

/-- A length that has been asked for is not asked for again, and the device is left alone. -/
theorem run_byteLength_of_known (h : s.knownLength = some known) :
    (byteLength (δ := δ)).run.run s = (.ok known, s) := by
  rw [byteLength, run_bind_ok run_get, h]
  exact run_pure known

/-- The length is told by the number of blocks and their size, in 64 bits, and kept for the next time. -/
theorem run_byteLength_of_blockCount (h : s.knownLength = none)
    (hcount : BlockDevice.blockCount s.device = .ok count) :
    (byteLength (δ := δ)).run.run s =
      (.ok (count * (BlockDevice.blockSize s.device).toUInt64),
        { s with
          knownLength := some (count * (BlockDevice.blockSize s.device).toUInt64) }) := by
  have hblocks : (blockCount (δ := δ)).run.run s = (.ok count, s) := by
    rw [blockCount, run_bind_ok run_get, hcount]
    exact run_pure count
  rw [byteLength, run_bind_ok run_get, h]
  dsimp only
  rw [run_bind_ok hblocks, run_bind_ok run_get, run_bind_ok (run_modify _), run_pure]

/-- Without a number of blocks there is no length, and the next request asks for it again. -/
theorem run_byteLength_of_error (h : s.knownLength = none)
    (hcount : BlockDevice.blockCount s.device = .error message) :
    (byteLength (δ := δ)).run.run s = (.error (.io 0 message), s) := by
  have hfails : (blockCount (δ := δ)).run.run s = (.error (.io 0 message), s) := by
    rw [blockCount, run_bind_ok run_get, hcount]
    exact run_throw _
  rw [byteLength, run_bind_ok run_get, h]
  exact run_bind_error hfails

/-- Asking for the length leaves the device as it is: only the length is kept. -/
theorem device_byteLength (s : SectorSource δ) :
    ((byteLength (δ := δ)).run.run s).2.device = s.device := by
  cases hknown : s.knownLength with
  | some length => rw [run_byteLength_of_known hknown]
  | none =>
    cases hcount : BlockDevice.blockCount s.device with
    | error message => rw [run_byteLength_of_error hknown hcount]
    | ok count => rw [run_byteLength_of_blockCount hknown hcount]

end ByteLength

theorem yields_getFraming : Yields image framing (getFraming : SourceM δ Framing) (.ok framing) := by
  intro s hs
  refine ⟨s, ?_, hs⟩
  rw [getFraming, run_bind_ok run_get, run_pure, hs.framing_eq]

/-- The length of a source that serves an image is that of the image. -/
theorem yields_byteLength :
    Yields image framing (byteLength : SourceM δ UInt64) (.ok (.ofNat image.bytes.length)) := by
  intro s hs
  cases hknown : s.knownLength with
  | some length =>
    refine ⟨s, ?_, hs⟩
    rw [run_byteLength_of_known hknown, hs.knownLength_eq length hknown]
  | none =>
    obtain ⟨count, hcount, hblocks⟩ := hs.held.blockCount_eq
    rw [run_byteLength_of_blockCount hknown hcount, hs.held.mul_blockSize_eq hblocks]
    exact ⟨_, rfl, hs.held, hs.framing_eq, fun length hlength => by simpa using hlength.symm⟩

/-- A source that serves an image finds its sectors where the image has them. -/
theorem yields_sectorOffset (lsn : UInt32) :
    Yields image framing (sectorOffset lsn : SourceM δ Nat) (Image.sectorOffset framing lsn) :=
  fun s hs => ⟨s, by rw [run_sectorOffset, hs.framing_eq], hs⟩

/-- Blocks that start inside the image are filled in, and have its bytes in them as far as it goes. -/
theorem run_fillBlocks (hs : s.Serves image framing) (first : Nat) (destination : Bytes)
    (hwhole : image.blockSize ∣ destination.length)
    (hstart : first * image.blockSize + destination.length < image.bytes.length + image.blockSize) :
    ∃ bytes s', (fillBlocks first destination).run s = (⟨.ok (), bytes⟩, s') ∧
      s'.Serves image framing ∧ bytes.length = destination.length ∧
      ∀ offset count, first * image.blockSize ≤ offset →
        offset + count ≤ first * image.blockSize + destination.length →
        offset + count ≤ image.bytes.length →
          bytes.slice (offset - first * image.blockSize) count = image.bytes.slice offset count := by
  obtain ⟨hok, hlength, hheld, hbytes⟩ := hs.held.readBlocks hwhole hstart
  have hrun := run_fillBlocks_of_read (s := s)
    (rfl : BlockDevice.readBlocks s.device first destination = _)
  rw [hok] at hrun
  exact ⟨_, _, hrun, ⟨hheld, hs.framing_eq, hs.knownLength_eq⟩, hlength, hbytes⟩

/-- The blocks around bytes have those bytes in them, from the first to the last. -/
theorem blocksAround_cover {blockSize : Nat} (hpos : 0 < blockSize) (offset length : Nat) :
    let first := offset / blockSize
    let blocks := (offset + length + blockSize - 1) / blockSize - first
    first * blockSize ≤ offset ∧ offset + length ≤ first * blockSize + blocks * blockSize := by
  dsimp only
  generalize hstop : (offset + length + blockSize - 1) / blockSize = stop
  have hfirst : offset / blockSize ≤ stop := by
    rw [← hstop]
    exact Nat.div_le_div_right (by omega)
  rw [← Nat.add_mul, Nat.add_sub_cancel' hfirst]
  -- Rounding up leaves nothing out.
  have hsplit := Nat.div_add_mod' (offset + length + blockSize - 1) blockSize
  have hrest := Nat.mod_lt (offset + length + blockSize - 1) hpos
  rw [hstop] at hsplit
  exact ⟨Nat.div_mul_le_self _ _, by omega⟩

/-- The blocks around bytes of the image start inside it, so that the device has the first of them. -/
theorem blocksAround_start (image : Image) {offset length : Nat}
    (hend : offset + length ≤ image.bytes.length) :
    let first := offset / image.blockSize
    let blocks := (offset + length + image.blockSize - 1) / image.blockSize - first
    first * image.blockSize + blocks * image.blockSize <
      image.bytes.length + image.blockSize := by
  have hpos := image.blockSize_pos
  have hdown := Nat.div_mul_le_self (offset + length + image.blockSize - 1) image.blockSize
  dsimp only
  have hfirst : offset / image.blockSize ≤
      (offset + length + image.blockSize - 1) / image.blockSize :=
    Nat.div_le_div_right (by omega)
  rw [← Nat.add_mul, Nat.add_sub_cancel' hfirst]
  omega

/-- The blocks around bytes of the image lie inside it, if it is whole blocks; otherwise the last may
reach out. -/
theorem blocksAround_inside {image : Image} (hwhole : image.blockSize ∣ image.bytes.length)
    {offset length : Nat} (hend : offset + length ≤ image.bytes.length) :
    let first := offset / image.blockSize
    let blocks := (offset + length + image.blockSize - 1) / image.blockSize - first
    first * image.blockSize + blocks * image.blockSize ≤ image.bytes.length := by
  obtain ⟨count, hcount⟩ := hwhole
  have hstart := blocksAround_start image hend
  dsimp only at hstart ⊢
  rw [← Nat.add_mul, hcount, Nat.mul_comm image.blockSize] at hstart ⊢
  exact blocks_le_of_start_lt hstart

/-- The length that a source takes the image to have is its length, as it has fewer than `2 ^ 64` bytes.
-/
theorem Serves.toNat_length (hs : s.Serves image framing) :
    (UInt64.ofNat image.bytes.length).toNat = image.bytes.length := by
  rw [UInt64.toNat_ofNat', Nat.mod_eq_of_lt hs.held.length_lt]

/-- A destination is filled with the bytes that a read gives, or left alone where it fails. -/
theorem run_fillBytes (hs : s.Serves image framing) (offset : Nat) (destination : Bytes) :
    ∃ s', (fillBytes offset destination).run s =
        (.ofRead destination (image.readBytes offset destination.length), s') ∧
      s'.Serves image framing := by
  by_cases hne : destination = []
  · subst hne
    exact ⟨s, rfl, hs⟩
  obtain ⟨s₁, hrun, hs₁⟩ := (yields_byteLength (δ := δ)) s hs
  have hsize := hs.held.blockSize_eq
  have hknown := hs.toNat_length
  have hlength : destination.length ≠ 0 := mt List.length_eq_zero_iff.mp hne
  by_cases hend : offset + destination.length ≤ image.bytes.length
  · have hend' := hknown.symm ▸ hend
    rw [Image.readBytes, if_neg hlength, if_neg (Nat.not_lt.mpr hend)]
    by_cases hwhole : image.blockSize ∣ offset ∧ image.blockSize ∣ destination.length
    · rw [fillBytes_whole hne hrun hend' (hsize ▸ hwhole.1) (hsize ▸ hwhole.2), hsize]
      have hfirst := Nat.div_mul_cancel hwhole.1
      have hpos := image.blockSize_pos
      obtain ⟨bytes, s₂, hfill, hs₂, hfull, hbytes⟩ := run_fillBlocks hs₁
        (offset / image.blockSize) destination hwhole.2 (by omega)
      have hall := hbytes offset destination.length (by omega) (by omega) hend
      rw [hfirst, Nat.sub_self, ← hfull, Bytes.slice, List.drop_zero, List.take_length] at hall
      exact ⟨s₂, by rw [hfill, hall, hfull]; rfl, hs₂⟩
    · obtain ⟨hstart, hstop⟩ := blocksAround_cover image.blockSize_pos offset destination.length
      obtain ⟨bytes, s₂, hfill, hs₂, -, hbytes⟩ := run_fillBlocks hs₁ (offset / image.blockSize)
        (Bytes.zeros (((offset + destination.length + image.blockSize - 1) / image.blockSize -
          offset / image.blockSize) * image.blockSize))
        (by rw [Bytes.length_zeros]; exact Nat.dvd_mul_left _ _)
        (by rw [Bytes.length_zeros]; exact blocksAround_start image hend)
      rw [Bytes.length_zeros] at hbytes
      refine ⟨s₂, ?_, hs₂⟩
      rw [fillBytes_around hne hrun hend' (by rw [hsize]; exact hwhole) (by rw [hsize]; exact hfill),
        hsize]
      dsimp only
      rw [hbytes _ _ hstart hstop hend]
      rfl
  · have hpast := Nat.not_le.mp hend
    rw [Image.readBytes, if_neg hlength, if_pos hpast, ← hsize]
    exact ⟨s₁, fillBytes_past hne hrun (hknown.symm ▸ hpast), hs₁⟩

/-- A destination is filled with a sector, or left alone where it cannot be read; the source serves on.
-/
theorem run_fillSector (hs : s.Serves image framing) (lsn : UInt32) {destination : Bytes}
    (hlength : destination.length = sectorSize) :
    ∃ s', (fillSector lsn destination).run s =
        (.ofRead destination (image.readSector framing lsn), s') ∧ s'.Serves image framing := by
  obtain ⟨s₁, hrun, hs₁⟩ := (yields_sectorOffset (δ := δ) lsn) s hs
  rw [fillSector, run_stateBind hrun, Image.readSector]
  cases Image.sectorOffset framing lsn with
  | error failure => exact ⟨s₁, rfl, hs₁⟩
  | ok offset =>
    obtain ⟨s₂, hfill, hs₂⟩ := run_fillBytes hs₁ offset destination
    rw [hlength] at hfill
    exact ⟨s₂, hfill, hs₂⟩

/-- A new destination holds what it was filled with, or the failure of the filling is that of the work.
-/
theorem yields_filled {length : Nat} {fill : Bytes → StateM (SectorSource δ) Fill}
    {result : Except Error Bytes}
    (hfill : ∀ s : SectorSource δ, s.Serves image framing →
      ∃ s', (fill (Bytes.zeros length)).run s = (.ofRead (Bytes.zeros length) result, s') ∧
        s'.Serves image framing) :
    Yields image framing (filled length fill) result := by
  intro s hs
  obtain ⟨s', hrun, hs'⟩ := hfill s hs
  refine ⟨s', ?_, hs'⟩
  rw [filled, run_bind_ok (run_liftState hrun)]
  cases result with
  | ok bytes => exact run_pure bytes
  | error failure => exact run_throw failure

/-- Bytes are read from the source as they stand in the image, or it fails as the image says. -/
theorem yields_readBytes (offset length : Nat) :
    Yields image framing (readBytes offset length : SourceM δ Bytes)
      (image.readBytes offset length) := by
  refine yields_filled fun s hs => ?_
  obtain ⟨s', hrun, hs'⟩ := run_fillBytes hs offset (Bytes.zeros length)
  rw [Bytes.length_zeros] at hrun
  exact ⟨s', hrun, hs'⟩

/-- A sector is read from the source as it stands in the image, or it fails as the image says. -/
theorem yields_readSector (lsn : UInt32) :
    Yields image framing (readSector lsn : SourceM δ Bytes) (image.readSector framing lsn) :=
  yields_filled fun _ hs => run_fillSector hs lsn (Bytes.length_zeros _)

/-- Sectors that are read one by one are those of the image, up to the first that cannot be read. -/
theorem yields_readEachSector (lsn : UInt32) (count : Nat) :
    Yields image framing (readEachSector lsn count : SourceM δ Bytes)
      (image.readEachSector framing lsn count) := by
  induction count generalizing lsn with
  | zero => exact .pure []
  | succ count ih =>
    have hsector : Yields image framing (readSector lsn : SourceM δ Bytes) _ :=
      yields_readSector lsn
    have hrest := ih (lsn + 1)
    rw [readEachSector, Image.readEachSector]
    cases hread : image.readSector framing lsn with
    | error failure =>
      rw [hread] at hsector
      exact hsector.bind_error
    | ok sector =>
      rw [hread] at hsector
      refine hsector.bind_ok ?_
      show Yields image framing _ (do
        let rest ← image.readEachSector framing (lsn + 1) count
        return sector ++ rest)
      cases hlater : image.readEachSector framing (lsn + 1) count with
      | error failure =>
        rw [hlater] at hrest
        exact hrest.bind_error
      | ok rest =>
        rw [hlater] at hrest
        exact hrest.bind_ok (.pure _)

/-- Sectors that are read at once are those of the image, in one read or in many. -/
theorem yields_readSectors (lsn count : UInt32) :
    Yields image framing (readSectors lsn count : SourceM δ Bytes)
      (image.readSectors framing lsn count) := by
  have hoffset : Yields image framing (sectorOffset lsn : SourceM δ Nat) _ :=
    yields_sectorOffset lsn
  rw [readSectors, Image.readSectors]
  cases hplace : Image.sectorOffset framing lsn with
  | error failure =>
    rw [hplace] at hoffset
    exact hoffset.bind_error
  | ok offset =>
    rw [hplace] at hoffset
    refine .of_length_lt fun hlt => hoffset.bind_ok (yields_byteLength.bind_ok ?_)
    show Yields image framing _ (if _ then _ else _)
    rw [UInt64.toNat_ofNat', Nat.mod_eq_of_lt hlt]
    split
    · exact (Yields.throw _).bind_error
    · refine yields_getFraming.bind_ok ?_
      split
      · exact yields_readBytes offset _
      · exact yields_readEachSector lsn _

end SectorSource

end Ecma119
