import Ecma119.Proofs.Device.Image
import Ecma119.Proofs.Source.Serving

/-!
# The blocks that are read for a sector

A sector is read with the blocks around it, and these are asked for by one read of the device
(`Framing.blocksOf?`, `OfBlocks.run_fillSector`). Of the device no more is asked than that its blocks
keep their size and that a read leaves as many bytes as it was given; it may fail and give other bytes
every time.
-/

namespace Ecma119

variable {δ : Type} [BlockDevice δ] {blockSize : Nat}

/-! ## Devices with blocks of one size -/

namespace BlockDevice

/-- The device has blocks of this size, and a read leaves as many bytes as it was given and the device
in one of `states`. -/
structure ReadsBlocks (blockSize : Nat) (states : δ → Prop) (device : δ) : Prop where
  blockSize_eq : (BlockDevice.blockSize device).toNat = blockSize
  readBlocks : ∀ (first : Nat) (destination : Bytes),
    (BlockDevice.readBlocks device first destination).destination.length = destination.length ∧
      states (BlockDevice.readBlocks device first destination).device

/-- The device has blocks of this size, now and after any reads. -/
def HasBlocks (blockSize : Nat) (device : δ) : Prop :=
  ∃ states : δ → Prop, states device ∧ ∀ d, states d → ReadsBlocks blockSize states d

variable {device : δ}

/-- A device that has blocks of a size answers reads so, and goes on having them. -/
theorem HasBlocks.readsBlocks (h : HasBlocks blockSize device) :
    ReadsBlocks blockSize (HasBlocks blockSize) device := by
  obtain ⟨states, hdevice, hstates⟩ := h
  refine ⟨(hstates device hdevice).blockSize_eq, fun first destination => ?_⟩
  obtain ⟨hlength, hnext⟩ := (hstates device hdevice).readBlocks first destination
  exact ⟨hlength, states, hnext, hstates⟩

/-- Writing reads down does not change the blocks, neither their size nor their bytes. -/
theorem HasBlocks.traced (h : HasBlocks blockSize device) (reads : List (Nat × Nat)) :
    HasBlocks blockSize (Traced.mk device reads) := by
  refine ⟨fun t => HasBlocks blockSize t.device, h, fun t ht => ?_⟩
  exact ⟨ht.readsBlocks.blockSize_eq, ht.readsBlocks.readBlocks⟩

end BlockDevice

/-- A device in memory keeps its blocks, with bad blocks and wrong claims too, through any reads. -/
theorem MemoryDevice.hasBlocks (d : MemoryDevice) :
    BlockDevice.HasBlocks d.blockSize.toNat d := by
  refine ⟨fun e => e.blockSize = d.blockSize, rfl,
    fun e he => ⟨congrArg UInt32.toNat he, fun first destination => ?_⟩⟩
  show (e.read first destination).destination.length = _ ∧
    (e.read first destination).device.blockSize = d.blockSize
  rw [MemoryDevice.read]
  cases e.badBlock? first destination.length with
  | some block => exact ⟨rfl, he⟩
  | none =>
    dsimp only
    split
    · exact ⟨rfl, he⟩
    · refine ⟨?_, he⟩
      rw [Array.length_toList, Array.size_extract]
      omega

/-! ## Blocks around bytes -/

/-- The first of the blocks around bytes, and the number of bytes in these blocks. -/
def blocksAround (blockSize offset length : Nat) : Nat × Nat :=
  let first := offset / blockSize
  (first, ((offset + length + blockSize - 1) / blockSize - first) * blockSize)

/-- Around whole blocks there is nothing else, so that they are read as they are. -/
theorem blocksAround_of_dvd {offset length : Nat} (hpos : 0 < blockSize)
    (hoffset : blockSize ∣ offset) (hlength : blockSize ∣ length) :
    blocksAround blockSize offset length = (offset / blockSize, length) := by
  obtain ⟨first, rfl⟩ := hoffset
  obtain ⟨count, rfl⟩ := hlength
  rw [blocksAround, ← Nat.mul_add, Nat.mul_comm blockSize (first + count), roundUp_blocks hpos,
    Nat.mul_div_cancel_left _ hpos, Nat.add_sub_cancel_left, Nat.mul_comm]

/-- The blocks with the data of a sector, if that does not lie before the image. -/
def Framing.blocksOf? (framing : Framing) (blockSize : Nat) (lsn : UInt32) : Option (Nat × Nat) :=
  (framing.byteOffset? lsn).map fun offset => blocksAround blockSize offset sectorSize

/-! ## Sources with blocks of one size -/

namespace SectorSource

structure OfBlocks (blockSize : Nat) (framing : Framing) (s : SectorSource δ) : Prop where
  blockSize_pos : 0 < blockSize
  hasBlocks : BlockDevice.HasBlocks blockSize s.device
  framing_eq : s.framing = framing

variable {framing : Framing}

/-- A source of blocks is one while its reads are being written down. -/
theorem OfBlocks.traced {s : SectorSource δ} (hs : s.OfBlocks blockSize framing) :
    s.traced.OfBlocks blockSize framing :=
  ⟨hs.blockSize_pos, hs.hasBlocks.traced [], hs.framing_eq⟩

variable {s : SectorSource (Traced δ)}

/-- Asking for the length is no read, and so does not show among the reads. -/
theorem OfBlocks.run_byteLength (hs : s.OfBlocks blockSize framing) :
    ∃ result s', (byteLength (δ := Traced δ)).run.run s = (result, s') ∧
      s'.OfBlocks blockSize framing ∧ s'.device.reads = s.device.reads := by
  cases hknown : s.knownLength with
  | some length => exact ⟨_, s, run_byteLength_of_known hknown, hs, rfl⟩
  | none =>
    cases hcount : BlockDevice.blockCount s.device with
    | error message => exact ⟨_, s, run_byteLength_of_error hknown hcount, hs, rfl⟩
    | ok count =>
      exact ⟨_, _, run_byteLength_of_blockCount hknown hcount,
        ⟨hs.blockSize_pos, hs.hasBlocks, hs.framing_eq⟩, rfl⟩

/-- Filling whole blocks is one read, of these blocks and no others. -/
theorem OfBlocks.run_fillBlocks (hs : s.OfBlocks blockSize framing) (first : Nat)
    (destination : Bytes) :
    ∃ fill s', (fillBlocks first destination).run s = (fill, s') ∧
      s'.OfBlocks blockSize framing ∧ fill.destination.length = destination.length ∧
      s'.device.reads = s.device.reads ++ [(first, destination.length)] := by
  obtain ⟨hlength, hnext⟩ := hs.hasBlocks.readsBlocks.readBlocks first destination
  exact ⟨_, _, run_fillBlocks_of_read rfl, ⟨hs.blockSize_pos, hnext, hs.framing_eq⟩, hlength, rfl⟩

/-- Filling a destination is one read of the blocks around its bytes, or fails without one. -/
theorem OfBlocks.run_fillBytes (hs : s.OfBlocks blockSize framing) (offset : Nat)
    {destination : Bytes} (hne : destination ≠ []) :
    ∃ fill s', (fillBytes offset destination).run s = (fill, s') ∧
      s'.OfBlocks blockSize framing ∧ fill.destination.length = destination.length ∧
      (s'.device.reads = s.device.reads ++ [blocksAround blockSize offset destination.length] ∨
        s'.device.reads = s.device.reads ∧ ∃ failure, fill.outcome = .error failure) := by
  obtain ⟨result, s₁, hrun, hs₁, hreads⟩ := hs.run_byteLength
  have hsize := hs.hasBlocks.readsBlocks.blockSize_eq
  cases result with
  | error failure =>
    exact ⟨_, s₁, fillBytes_error hne hrun, hs₁, rfl, .inr ⟨hreads, failure, rfl⟩⟩
  | ok length =>
    by_cases hend : offset + destination.length ≤ length.toNat
    · by_cases hwhole : blockSize ∣ offset ∧ blockSize ∣ destination.length
      · obtain ⟨fill, s₂, hfill, hs₂, hlength, hread⟩ :=
          hs₁.run_fillBlocks (offset / blockSize) destination
        rw [fillBytes_whole hne hrun hend (hsize ▸ hwhole.1) (hsize ▸ hwhole.2), hsize]
        refine ⟨fill, s₂, hfill, hs₂, hlength, .inl ?_⟩
        rw [hread, hreads, blocksAround_of_dvd hs.blockSize_pos hwhole.1 hwhole.2]
      · obtain ⟨fill, s₂, hfill, hs₂, hlength, hread⟩ := hs₁.run_fillBlocks (offset / blockSize)
          (Bytes.zeros (((offset + destination.length + blockSize - 1) / blockSize -
            offset / blockSize) * blockSize))
        rw [fillBytes_around hne hrun hend (by rw [hsize]; exact hwhole)
          (by rw [hsize]; exact hfill), hsize]
        rw [hreads, Bytes.length_zeros] at hread
        refine ⟨_, s₂, rfl, hs₂, ?_, .inl hread⟩
        cases fill.outcome with
        | error failure => rfl
        | ok =>
          -- The blocks have all the bytes that are wanted.
          obtain ⟨hstart, hstop⟩ :=
            blocksAround_cover hs.blockSize_pos offset destination.length
          refine Bytes.length_slice ?_
          rw [hlength, Bytes.length_zeros]
          omega
    · exact ⟨_, s₁, fillBytes_past hne hrun (Nat.not_le.mp hend), hs₁, rfl,
        .inr ⟨hreads, _, rfl⟩⟩

/-- Filling the sector buffer is one read of the blocks with the sector, or fails without one. -/
theorem OfBlocks.run_fillSector (hs : s.OfBlocks blockSize framing) (lsn : UInt32)
    {destination : Bytes} (hlength : destination.length = sectorSize) :
    ∃ fill s', (fillSector lsn destination).run s = (fill, s') ∧
      s'.OfBlocks blockSize framing ∧ fill.destination.length = sectorSize ∧
      ((∃ blocks, framing.blocksOf? blockSize lsn = some blocks ∧
          s'.device.reads = s.device.reads ++ [blocks]) ∨
        s'.device.reads = s.device.reads ∧ ∃ failure, fill.outcome = .error failure) := by
  have hrun : (sectorOffset lsn : SourceM (Traced δ) Nat).run.run s =
      (Image.sectorOffset framing lsn, s) := hs.framing_eq ▸ run_sectorOffset s lsn
  rw [fillSector, run_stateBind hrun]
  cases hoffset : Image.sectorOffset framing lsn with
  | error failure => exact ⟨_, s, rfl, hs, hlength, .inr ⟨rfl, failure, rfl⟩⟩
  | ok offset =>
    have hne : destination ≠ [] := List.ne_nil_of_length_pos (hlength ▸ sectorSize_pos)
    obtain ⟨fill, s₁, hfill, hs₁, hkept, hreads⟩ := hs.run_fillBytes offset hne
    rw [hlength] at hkept hreads
    refine ⟨fill, s₁, hfill, hs₁, hkept, hreads.imp_left fun hread => ⟨_, ?_, hread⟩⟩
    rw [Framing.blocksOf?, Image.sectorOffset_eq_ok.mp hoffset, Option.map_some]

end SectorSource

end Ecma119
