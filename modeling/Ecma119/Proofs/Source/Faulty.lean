import Ecma119.Proofs.Device.Faulty
import Ecma119.Proofs.Source.Serving

/-!
# Sectors from a device that fails

A source on a device that tells an image fills a destination with what there is to be read, or fails.
Then the destination is as it was, unless the device was given the destination itself: a sector that is
whole blocks is read so, and what a failing read leaves there stays.
-/

namespace Ecma119

/-- What may come of filling a destination where there is `result` to be read: that, or a failure
that leaves the destination as it was or as `spoils` says. -/
inductive Fill.ComesOf (result : Except Error Bytes) (spoils : Bytes → Bytes → Prop)
    (destination : Bytes) : Fill → Prop
  | filled {bytes : Bytes} (h : result = .ok bytes) :
    ComesOf result spoils destination ⟨.ok (), bytes⟩
  | kept (failure : Error) : ComesOf result spoils destination ⟨.error failure, destination⟩
  | spoilt {failure : Error} {left : Bytes} (hlength : left.length = destination.length)
      (h : spoils destination left) : ComesOf result spoils destination ⟨.error failure, left⟩

/-- What comes of a filling also does where more ways to spoil the destination are allowed for. -/
theorem Fill.ComesOf.mono {result : Except Error Bytes} {spoils spoils' : Bytes → Bytes → Prop}
    {destination : Bytes} {fill : Fill} (h : fill.ComesOf result spoils destination)
    (himp : ∀ left, spoils destination left → spoils' destination left) :
    fill.ComesOf result spoils' destination := by
  cases h with
  | filled h => exact .filled h
  | kept failure => exact .kept failure
  | spoilt hlength h => exact .spoilt hlength (himp _ h)

namespace SectorSource

variable {δ : Type} [BlockDevice δ]

/-- What the source gives is in the image, under the framing. -/
structure Tells (image : Image) (framing : Framing) (leaves : Bytes → Bytes → Prop)
    (s : SectorSource δ) : Prop where
  told : image.ToldBy leaves s.device
  framing_eq : s.framing = framing

variable {image : Image} {framing : Framing} {leaves : Bytes → Bytes → Prop} {s : SectorSource δ}

/-- A source on a device that tells the image tells it under any framing, before it has cached anything.
-/
theorem tells_ofDevice {device : δ} (h : image.ToldBy leaves device) (framing : Framing) :
    (ofDevice device framing).Tells image framing leaves := ⟨h, rfl⟩

/-- Whatever length the device claims, asking for it changes nothing of what the source tells. -/
theorem Tells.run_byteLength (hs : s.Tells image framing leaves) :
    ∃ result s', (byteLength (δ := δ)).run.run s = (result, s') ∧ s'.Tells image framing leaves := by
  cases hknown : s.knownLength with
  | some length => exact ⟨_, s, run_byteLength_of_known hknown, hs⟩
  | none =>
    cases hcount : BlockDevice.blockCount s.device with
    | error message => exact ⟨_, s, run_byteLength_of_error hknown hcount, hs⟩
    | ok count =>
      exact ⟨_, _, run_byteLength_of_blockCount hknown hcount, hs.told, hs.framing_eq⟩

/-- Whole blocks are filled in, or left as the device leaves them, and the source goes on telling the
image. -/
theorem Tells.run_fillBlocks (hs : s.Tells image framing leaves) (first : Nat)
    (destination : Bytes) (hwhole : image.blockSize ∣ destination.length) :
    ∃ fill s', (fillBlocks first destination).run s = (fill, s') ∧
      s'.Tells image framing leaves ∧
      fill.ComesOf (image.readBytes (first * image.blockSize) destination.length) leaves
        destination := by
  obtain ⟨hnext, hok, herror⟩ := hs.told.once.readBlocks first destination hwhole
  cases hread : BlockDevice.readBlocks s.device first destination with
  | mk outcome left device =>
    rw [hread] at hnext hok herror
    refine ⟨_, _, run_fillBlocks_of_read hread, ⟨hnext, hs.framing_eq⟩, ?_⟩
    cases outcome with
    | ok =>
      obtain ⟨hinside, rfl⟩ := hok rfl
      refine .filled ?_
      rw [Image.readBytes]
      split
      · next hzero => rw [hzero]; rfl
      · rw [if_neg (by omega)]
    | error message =>
      obtain ⟨hlength, hleft⟩ := herror message rfl
      exact .spoilt hlength hleft

end SectorSource

namespace Image

variable {image : Image} {framing : Framing}

/-- A request for whole blocks, which the device fills in itself. -/
def IsWhole (image : Image) (offset length : Nat) : Prop :=
  image.blockSize ∣ offset ∧ image.blockSize ∣ length

/-- A sector that is whole blocks. -/
def IsWholeSector (image : Image) (framing : Framing) (lsn : UInt32) : Prop :=
  ∃ offset, framing.byteOffset? lsn = some offset ∧ image.IsWhole offset sectorSize

/-- A part of what there is to be read is what there is to be read there, so that blocks around it can be
read. -/
theorem readBytes_within {start length offset count : Nat} {bytes : Bytes}
    (h : image.readBytes start length = .ok bytes) (hcount : count ≠ 0) (hstart : start ≤ offset)
    (hstop : offset + count ≤ start + length) :
    image.readBytes offset count = .ok (bytes.slice (offset - start) count) := by
  rw [readBytes, if_neg (by omega)] at h
  split at h
  · cases h
  · cases h
    rw [readBytes, if_neg hcount, if_neg (by omega), Bytes.slice_slice _ (by omega),
      Nat.add_sub_cancel' hstart]

end Image

namespace SectorSource

variable {δ : Type} [BlockDevice δ] {image : Image} {framing : Framing}
variable {leaves : Bytes → Bytes → Prop} {s : SectorSource δ}

/-- A destination is filled with the bytes that there are, and where that fails, only whole blocks are
left otherwise than they were. -/
theorem Tells.run_fillBytes (hs : s.Tells image framing leaves) (offset : Nat)
    (destination : Bytes) :
    ∃ fill s', (fillBytes offset destination).run s = (fill, s') ∧
      s'.Tells image framing leaves ∧
      fill.ComesOf (image.readBytes offset destination.length)
        (fun before after => image.IsWhole offset destination.length ∧ leaves before after)
        destination := by
  by_cases hne : destination = []
  · subst hne
    exact ⟨_, s, rfl, hs, .filled rfl⟩
  obtain ⟨result, s₁, hrun, hs₁⟩ := hs.run_byteLength
  have hsize := hs.told.once.blockSize_eq
  cases result with
  | error failure => exact ⟨_, s₁, fillBytes_error hne hrun, hs₁, .kept failure⟩
  | ok length =>
    by_cases hend : offset + destination.length ≤ length.toNat
    · by_cases hwhole : image.IsWhole offset destination.length
      -- The device is given the destination.
      · obtain ⟨fill, s₂, hfill, hs₂, hcomes⟩ :=
          hs₁.run_fillBlocks (offset / image.blockSize) destination hwhole.2
        rw [fillBytes_whole hne hrun hend (hsize ▸ hwhole.1) (hsize ▸ hwhole.2), hsize]
        rw [Nat.div_mul_cancel hwhole.1] at hcomes
        exact ⟨fill, s₂, hfill, hs₂, hcomes.mono fun left hleft => ⟨hwhole, hleft⟩⟩
      -- The device is given blocks of their own.
      · obtain ⟨hstart, hstop⟩ := blocksAround_cover image.blockSize_pos offset destination.length
        obtain ⟨fill, s₂, hfill, hs₂, hcomes⟩ := hs₁.run_fillBlocks (offset / image.blockSize)
          (Bytes.zeros (((offset + destination.length + image.blockSize - 1) /
            image.blockSize - offset / image.blockSize) * image.blockSize))
          (by rw [Bytes.length_zeros]; exact Nat.dvd_mul_left _ _)
        rw [fillBytes_around hne hrun hend (by rw [hsize]; exact hwhole)
          (by rw [hsize]; exact hfill), hsize]
        cases hcomes with
        | filled hbytes =>
          rw [Bytes.length_zeros] at hbytes
          have hlength : destination.length ≠ 0 := mt List.length_eq_zero_iff.mp hne
          exact ⟨_, s₂, rfl, hs₂, .filled (Image.readBytes_within hbytes hlength hstart hstop)⟩
        | kept failure => exact ⟨_, s₂, rfl, hs₂, .kept failure⟩
        | spoilt _ _ => exact ⟨_, s₂, rfl, hs₂, .kept _⟩
    · exact ⟨_, s₁, fillBytes_past hne hrun (Nat.not_le.mp hend), hs₁, .kept _⟩

/-- Where a sector lies is told without the device, from the framing alone. -/
theorem Tells.run_sectorOffset (hs : s.Tells image framing leaves) (lsn : UInt32) :
    (sectorOffset lsn : SourceM δ Nat).run.run s = (Image.sectorOffset framing lsn, s) := by
  rw [SectorSource.run_sectorOffset, hs.framing_eq]

/-- A sector is filled in from where the framing has it, or left as filling bytes there leaves it. -/
theorem Tells.run_fillSector_of_byteOffset (hs : s.Tells image framing leaves) {lsn : UInt32}
    {offset : Nat} (hoffset : framing.byteOffset? lsn = some offset) (destination : Bytes) :
    (fillSector lsn destination).run s = (fillBytes offset destination).run s := by
  rw [fillSector, run_stateBind (hs.run_sectorOffset lsn), Image.sectorOffset_eq_ok.mpr hoffset]

/-- A destination is filled with the sector, and where that fails, only a sector of whole blocks leaves
it otherwise than it was. -/
theorem Tells.run_fillSector (hs : s.Tells image framing leaves) (lsn : UInt32)
    {destination : Bytes} (hlength : destination.length = sectorSize) :
    ∃ fill s', (fillSector lsn destination).run s = (fill, s') ∧
      s'.Tells image framing leaves ∧
      fill.ComesOf (image.readSector framing lsn)
        (fun before after => image.IsWholeSector framing lsn ∧ leaves before after)
        destination := by
  cases hoffset : Image.sectorOffset framing lsn with
  | error failure =>
    rw [fillSector, run_stateBind (hs.run_sectorOffset lsn), hoffset]
    exact ⟨_, s, rfl, hs, .kept failure⟩
  | ok offset =>
    rw [Image.sectorOffset_eq_ok] at hoffset
    rw [hs.run_fillSector_of_byteOffset hoffset]
    obtain ⟨fill, s₁, hfill, hs₁, hcomes⟩ := hs.run_fillBytes offset destination
    rw [hlength, ← Image.readSector_eq hoffset] at hcomes
    exact ⟨fill, s₁, hfill, hs₁,
      hcomes.mono fun left hleft => ⟨⟨offset, hoffset, hleft.1⟩, hleft.2⟩⟩

/-! ## A source on a fading device -/

section Fading

variable {s : SectorSource FadingDevice} {lsn : UInt32} {sector destination : Bytes}
variable (hknown : ∀ length ∈ s.knownLength, length = s.device.claimed)
include hknown

/-- The length is told whether there are reads left or not, as it takes no read. -/
theorem run_byteLength_fading : (byteLength (δ := FadingDevice)).run.run s =
    (.ok s.device.claimed, { s with knownLength := some s.device.claimed }) := by
  cases hlength : s.knownLength with
  | some length =>
    rw [run_byteLength_of_known hlength, ← hknown length hlength, ← hlength]
  | none => exact run_byteLength_of_blockCount hlength rfl

/-- As long as there are reads left, a sector is filled in, and one fewer is left then. -/
theorem run_fillSector_fading (hblocks : s.device.image.blockSize ∣ s.device.image.bytes.length)
    (hleft : 0 < s.device.left)
    (hsector : s.device.image.readSector s.framing lsn = .ok sector)
    (hlength : destination.length = sectorSize) :
    (fillSector lsn destination).run s = (⟨.ok (), sector⟩,
      { s with
        device := { s.device with left := s.device.left - 1 },
        knownLength := some s.device.claimed }) := by
  have hs : s.Tells s.device.image s.framing fun _ _ => True := ⟨s.device.toldBy_image, rfl⟩
  obtain ⟨offset, hoffset, hend, rfl⟩ := Image.readSector_eq_ok.mp hsector
  have hrun := run_byteLength_fading hknown
  have hsize := s.device.toNat_blockSize
  have hne : destination ≠ [] := by
    rintro rfl
    cases hlength
  have hclaimed : offset + destination.length ≤ s.device.claimed.toNat := by
    have hfound := Framing.byteOffset?_lt hoffset
    have hmore := s.device.lt_toNat_claimed
    rw [hlength]
    dsimp only [sectorSize]
    omega
  rw [hs.run_fillSector_of_byteOffset hoffset]
  rw [← hlength] at hend ⊢
  by_cases hwhole : s.device.image.IsWhole offset destination.length
  · have hread := FadingDevice.read_ok hleft (offset / s.device.image.blockSize) destination
      (by rw [Nat.div_mul_cancel hwhole.1]; exact hend)
    rw [fillBytes_whole hne hrun hclaimed (hsize ▸ hwhole.1) (hsize ▸ hwhole.2), hsize,
      run_fillBlocks_of_read hread, Nat.div_mul_cancel hwhole.1]
    rfl
  · obtain ⟨hstart, hstop⟩ := blocksAround_cover s.device.image.blockSize_pos offset destination.length
    have hinside := blocksAround_inside hblocks hend
    dsimp only at hinside
    have hread := FadingDevice.read_ok hleft (offset / s.device.image.blockSize)
      (Bytes.zeros (((offset + destination.length + s.device.image.blockSize - 1) /
        s.device.image.blockSize - offset / s.device.image.blockSize) * s.device.image.blockSize))
      (by rw [Bytes.length_zeros]; exact hinside)
    rw [fillBytes_around hne hrun hclaimed (by rw [hsize]; exact hwhole)
      (by rw [hsize]; exact run_fillBlocks_of_read hread), hsize, Bytes.length_zeros]
    show (Fill.mk (.ok ()) (Bytes.slice (Bytes.slice _ _ _) _ _), _) = _
    rw [Bytes.slice_slice _ (by omega), Nat.add_sub_cancel' hstart]

/-- When there are no reads left, a sector of whole blocks is filled with something else and reported as
failed. -/
theorem run_fillSector_faded (hleft : s.device.left = 0)
    (hwhole : s.device.image.IsWholeSector s.framing lsn)
    (hlength : destination.length = sectorSize) :
    ∃ failure s', (fillSector lsn destination).run s =
      (⟨.error failure, List.replicate sectorSize s.device.filling⟩, s') := by
  have hs : s.Tells s.device.image s.framing fun _ _ => True := ⟨s.device.toldBy_image, rfl⟩
  obtain ⟨offset, hoffset, hwhole⟩ := hwhole
  have hsize := s.device.toNat_blockSize
  have hne : destination ≠ [] := by
    rintro rfl
    cases hlength
  have hclaimed : offset + destination.length ≤ s.device.claimed.toNat := by
    have hfound := Framing.byteOffset?_lt hoffset
    have hmore := s.device.lt_toNat_claimed
    rw [hlength]
    dsimp only [sectorSize]
    omega
  rw [hs.run_fillSector_of_byteOffset hoffset]
  rw [← hlength] at hwhole ⊢
  rw [fillBytes_whole hne (run_byteLength_fading hknown) hclaimed (hsize ▸ hwhole.1)
    (hsize ▸ hwhole.2), run_fillBlocks_of_read (FadingDevice.read_error hleft _ _)]
  exact ⟨_, _, rfl⟩

end Fading

end SectorSource

end Ecma119
