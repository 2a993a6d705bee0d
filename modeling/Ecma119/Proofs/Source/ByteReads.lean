import Ecma119.Proofs.Source.Tracing

/-!
# Bytes at any offset

Bytes that are whole blocks are read by the device where they are wanted; for others the blocks around
them are read and cut. Either way it is one read of whole blocks that has all the bytes and does not go
past the end of the device (`Covers`), and none if a request is empty or goes past the end that the source
takes the device to have. That is not its end where its bytes cannot be counted in 64 bits.
-/

namespace Ecma119

/-- A read, given by its first block and its number of bytes, is of whole blocks that lie in the first
`total` bytes of a device, and `length` bytes from `offset` on are among them. -/
structure Image.Covers (image : Image) (total offset length : Nat) (read : Nat × Nat) : Prop where
  whole : image.blockSize ∣ read.2
  starts : read.1 * image.blockSize ≤ offset
  ends : offset + length ≤ read.1 * image.blockSize + read.2
  inside : read.1 * image.blockSize + read.2 ≤ total

section OfRead

variable {image : Image} {offset : Nat} {destination : Bytes}

/-- Bytes that are there are filled in, and no bytes always are. -/
theorem Fill.ofRead_inside
    (h : destination = [] ∨ offset + destination.length ≤ image.bytes.length) :
    ofRead destination (image.readBytes offset destination.length) =
      ⟨.ok (), image.bytes.slice offset destination.length⟩ := by
  rw [Image.readBytes]
  by_cases hempty : destination.length = 0
  · rw [if_pos hempty, hempty, Bytes.slice, List.take_zero]
    rfl
  · have hinside := h.resolve_left (mt List.length_eq_zero_iff.mpr hempty)
    rw [if_neg hempty, if_neg (Nat.not_lt.mpr hinside)]
    rfl

/-- Where bytes are wanted that are not there, the destination is left as it was, and the failure says
why. -/
theorem Fill.ofRead_past (hne : destination ≠ [])
    (hpast : image.bytes.length < offset + destination.length) :
    ofRead destination (image.readBytes offset destination.length) =
      ⟨.error (.io (offset / image.blockSize) "read past end of source"), destination⟩ := by
  rw [Image.readBytes, if_neg (mt List.length_eq_zero_iff.mp hne), if_pos hpast]
  rfl

end OfRead

namespace SectorSource

variable {δ : Type} [BlockDevice δ] {image : Image} {framing : Framing} {offset : Nat}
variable {destination : Bytes}

/-- The blocks around bytes of the image are blocks of the device: whole ones, that lie in it and have
these bytes in them. -/
theorem covers_blocksAround {blocks : Nat} (hle : image.bytes.length ≤ blocks * image.blockSize)
    (h : offset + destination.length ≤ image.bytes.length) :
    image.Covers (blocks * image.blockSize) offset destination.length
      (blocksAround image.blockSize offset destination.length) := by
  obtain ⟨hstart, hstop⟩ := blocksAround_cover image.blockSize_pos offset destination.length
  refine ⟨Nat.dvd_mul_left _ _, hstart, hstop, ?_⟩
  have hlast := blocksAround_start image h
  dsimp only [blocksAround] at hlast ⊢
  rw [← Nat.add_mul] at hlast ⊢
  exact blocks_le_of_start_lt (by omega)

/-- A source that serves an image goes on doing so while its reads are being written down. -/
theorem Serves.traced {s : SectorSource δ} (hs : s.Serves image framing) :
    s.traced.Serves image framing :=
  ⟨hs.held.traced [], hs.framing_eq, hs.knownLength_eq⟩

variable {s : SectorSource (Traced δ)}

/-- Filling blocks is one read of them, written down with its first block and its length. -/
theorem reads_fillBlocks (s : SectorSource (Traced δ)) (first : Nat) (destination : Bytes) :
    ((fillBlocks first destination).run s).2.device.reads =
      s.device.reads ++ [(first, destination.length)] := rfl

/-- The reads that filling a destination takes: none if there is nothing to be had, and otherwise a
single one. -/
theorem Serves.reads_fillBytes (hs : s.Serves image framing) (offset : Nat) (destination : Bytes) :
    ((fillBytes offset destination).run s).2.device.reads = s.device.reads ++
      if destination = [] ∨ image.bytes.length < offset + destination.length then []
      else [blocksAround image.blockSize offset destination.length] := by
  by_cases hne : destination = []
  · rw [if_pos (.inl hne), List.append_nil, fillBytes, if_pos (List.isEmpty_iff.mpr hne)]
    rfl
  obtain ⟨s₁, hrun, -⟩ := (yields_byteLength (δ := Traced δ)) s hs
  have hdevice := device_byteLength s
  rw [hrun] at hdevice
  dsimp only at hdevice
  have hsize := hs.held.blockSize_eq
  rw [← hs.toNat_length]
  by_cases hpast : (UInt64.ofNat image.bytes.length).toNat < offset + destination.length
  · rw [if_pos (.inr hpast), List.append_nil, fillBytes_past hne hrun hpast, hdevice]
  rw [if_neg (not_or.mpr ⟨hne, hpast⟩), ← hdevice]
  have hend := Nat.le_of_not_lt hpast
  by_cases hwhole : image.blockSize ∣ offset ∧ image.blockSize ∣ destination.length
  · rw [fillBytes_whole hne hrun hend (hsize ▸ hwhole.1) (hsize ▸ hwhole.2), reads_fillBlocks, hsize,
      blocksAround_of_dvd image.blockSize_pos hwhole.1 hwhole.2]
  · rw [fillBytes_around hne hrun hend (by rw [hsize]; exact hwhole) rfl]
    refine (reads_fillBlocks s₁ _ _).trans ?_
    rw [Bytes.length_zeros, hsize]
    rfl

/-- Two blocks of zeros, but for four bytes around the boundary between them. -/
def twoBlocks : Image where
  bytes := (Bytes.zeros 2048).put 1022 [1, 2, 3, 4]
  blockSize := 1024
  blockSize_pos := by decide
  blockSize_lt := by decide

end SectorSource

end Ecma119
