import Ecma119.Proofs.Device.Image

/-!
# Devices with blocks that cannot be read

`Image.HeldAround` says of a device that it gives the bytes of an image where it can: a read fails if it
touches a bad block or a block past the end, and only then. How many blocks the device claims to have
is another matter. It may claim too many or too few, or refuse to tell.
-/

namespace Ecma119

namespace Image

variable {image : Image} {bad : Nat → Prop} {offset length m n : Nat}

/-! ## Bytes that can be read -/

/-- The block is in the image, and not a bad one. A block at the end that is cut short is not in it. -/
def HasBlock (image : Image) (bad : Nat → Prop) (block : Nat) : Prop :=
  (block + 1) * image.blockSize ≤ image.bytes.length ∧ ¬ bad block

/-- Every block that has some of the bytes in it can be read. -/
def IsReadable (image : Image) (bad : Nat → Prop) (offset length : Nat) : Prop :=
  ∀ block, block * image.blockSize < offset + length → offset < (block + 1) * image.blockSize →
    image.HasBlock bad block

/-- Bytes one behind the other can be read if both parts of them can, and only then. -/
theorem isReadable_add :
    image.IsReadable bad offset (m + n) ↔
      image.IsReadable bad offset m ∧ image.IsReadable bad (offset + m) n := by
  constructor
  · intro h
    refine ⟨fun block hstart hstop => ?_, fun block hstart hstop => ?_⟩
    · apply h block _ hstop
      omega
    · apply h block _ _ <;> omega
  · rintro ⟨hfirst, hlater⟩ block hstart hstop
    by_cases hfront : block * image.blockSize < offset + m
    · exact hfirst block hfront hstop
    -- The block starts behind the first part, so it ends behind it too.
    · have hpos := image.blockSize_pos
      apply hlater block
      · omega
      · rw [Nat.succ_mul]
        omega

/-- Bytes that can be read are in the image, as the block of the last of them is, unless there are none.
-/
theorem IsReadable.add_le_length (h : image.IsReadable bad offset length) (hlength : 0 < length) :
    offset + length ≤ image.bytes.length := by
  have hpos := image.blockSize_pos
  -- The block of the last byte is in the image.
  obtain ⟨block, hblock⟩ : ∃ block, (offset + length - 1) / image.blockSize = block := ⟨_, rfl⟩
  have hstart := Nat.div_mul_le_self (offset + length - 1) image.blockSize
  have hstop : offset + length - 1 < (block + 1) * image.blockSize := by
    rw [← Nat.div_lt_iff_lt_mul hpos, hblock]
    exact Nat.lt_succ_self block
  rw [hblock] at hstart
  have hend := (h block (by omega) (by omega)).1
  omega

/-- Some bytes and the blocks around them are in the same blocks, so that both can be read or neither
can. -/
theorem isReadable_around (hlength : 0 < length) :
    let first := offset / image.blockSize
    let blocks := (offset + length + image.blockSize - 1) / image.blockSize - first
    image.IsReadable bad (first * image.blockSize) (blocks * image.blockSize) ↔
      image.IsReadable bad offset length := by
  have hpos := image.blockSize_pos
  intro first blocks
  have hfirst (block : Nat) :
      first * image.blockSize < (block + 1) * image.blockSize ↔
        offset < (block + 1) * image.blockSize := by
    rw [Nat.mul_lt_mul_right hpos, Nat.div_lt_iff_lt_mul hpos]
  have hstop (block : Nat) :
      block * image.blockSize < first * image.blockSize + blocks * image.blockSize ↔
        block * image.blockSize < offset + length := by
    have hle : first ≤ (offset + length + image.blockSize - 1) / image.blockSize :=
      Nat.div_le_div_right (by omega)
    rw [← Nat.add_mul, Nat.add_sub_cancel' hle, Nat.mul_lt_mul_right hpos, ← Nat.succ_le_iff,
      Nat.le_div_iff_mul_le hpos, Nat.succ_mul]
    omega
  unfold IsReadable
  simp only [hfirst, hstop]

/-- Whole blocks can be read if they are in the image and no bad ones, which is what a device looks at.
-/
theorem isReadable_blocks {first number : Nat} (hnumber : 0 < number) :
    image.IsReadable bad (first * image.blockSize) (number * image.blockSize) ↔
      first * image.blockSize + number * image.blockSize ≤ image.bytes.length ∧
        ∀ block, first ≤ block → block < first + number → ¬ bad block := by
  have hpos := image.blockSize_pos
  have hblocks : image.IsReadable bad (first * image.blockSize) (number * image.blockSize) ↔
      ∀ block, block < first + number → first ≤ block → image.HasBlock bad block := by
    unfold IsReadable
    simp only [← Nat.add_mul, Nat.mul_lt_mul_right hpos, Nat.lt_succ_iff]
  rw [hblocks, ← Nat.add_mul]
  constructor
  · intro h
    refine ⟨?_, fun block hfirst hlast => (h block hlast hfirst).2⟩
    have hend := (h (first + number - 1) (by omega) (by omega)).1
    rwa [Nat.sub_add_cancel (by omega)] at hend
  · rintro ⟨hend, hgood⟩ block hlast hfirst
    exact ⟨Nat.le_trans (Nat.mul_le_mul_right _ hlast) hend, hgood block hfirst hlast⟩

/-! ## Devices -/

variable {δ : Type} [BlockDevice δ] {count : Except String UInt64} {device : δ}

/-- The device tells the same number of blocks as ever, and a read of whole blocks succeeds where these
can be read. It then gives their bytes, and leaves the device in one of `states` either way. -/
structure AnsweredAround (image : Image) (bad : Nat → Prop) (count : Except String UInt64)
    (states : δ → Prop) (device : δ) : Prop where
  blockSize_eq : (BlockDevice.blockSize device).toNat = image.blockSize
  blockCount_eq : BlockDevice.blockCount device = count
  readBlocks : ∀ (first : Nat) (destination : Bytes), destination ≠ [] →
    image.blockSize ∣ destination.length →
      let read := BlockDevice.readBlocks device first destination
      (read.outcome = .ok () ↔
        image.IsReadable bad (first * image.blockSize) destination.length) ∧
      (read.outcome = .ok () →
        read.destination = image.bytes.slice (first * image.blockSize) destination.length) ∧
      states read.device

/-- The device gives the bytes of the image around its bad blocks, now and after any reads. -/
def HeldAround (image : Image) (bad : Nat → Prop) (count : Except String UInt64) (device : δ) : Prop :=
  ∃ states : δ → Prop, states device ∧ ∀ d, states d → image.AnsweredAround bad count states d

/-- A device that has the image around its bad blocks answers reads so, and goes on having it. -/
theorem HeldAround.answered (h : image.HeldAround bad count device) :
    image.AnsweredAround bad count (image.HeldAround bad count) device := by
  obtain ⟨states, hdevice, hstates⟩ := h
  refine ⟨(hstates _ hdevice).blockSize_eq, (hstates _ hdevice).blockCount_eq, ?_⟩
  intro first destination hne hwhole
  obtain ⟨hok, hbytes, hnext⟩ := (hstates _ hdevice).readBlocks first destination hne hwhole
  exact ⟨hok, hbytes, states, hnext, hstates⟩

end Image

/-! ## Devices in memory -/

namespace MemoryDevice

/-- There is no bad block in a read of whole blocks if none of them is one, and only then. -/
theorem badBlock?_eq_none_iff {d : MemoryDevice} (hpos : 0 < d.blockSize.toNat) {first number : Nat} :
    d.badBlock? first (number * d.blockSize.toNat) = none ↔
      ∀ block, first ≤ block → block < first + number → ¬ block ∈ d.badBlocks := by
  simp only [badBlock?, roundUp_blocks hpos, List.find?_eq_none, Bool.and_eq_true, decide_eq_true_eq]
  exact ⟨fun h block hfirst hlast hmem => h block hmem ⟨hfirst, hlast⟩,
    fun h block hmem hin => h block hin.1 hin.2 hmem⟩

/-- A read succeeds exactly if it meets no bad block and does not go past the end of the data. -/
theorem read_outcome_eq_ok_iff (d : MemoryDevice) (first : Nat) (destination : Bytes) :
    (d.read first destination).outcome = .ok () ↔
      first * d.blockSize.toNat + destination.length ≤ d.data.size ∧
        d.badBlock? first destination.length = none := by
  rw [read]
  cases d.badBlock? first destination.length with
  | some block => simp
  | none =>
    dsimp only
    split <;> simp <;> omega

/-- A read that succeeds has filled the destination with the bytes that are there from its first block
on. -/
theorem read_destination {d : MemoryDevice} {first : Nat} {destination : Bytes}
    (h : (d.read first destination).outcome = .ok ()) :
    (d.read first destination).destination =
      Bytes.slice d.data.toList (first * d.blockSize.toNat) destination.length := by
  obtain ⟨hinside, hbad⟩ := (d.read_outcome_eq_ok_iff first destination).mp h
  rw [read, hbad]
  simp [Nat.not_lt.mpr hinside, Bytes.slice]

/-- A read changes nothing but the list of reads: the data and the faults of a device in memory are
fixed. -/
theorem read_device (d : MemoryDevice) (first : Nat) (destination : Bytes) :
    (d.read first destination).device =
      { d with reads := (first, destination.length) :: d.reads } := by
  rw [read]
  cases d.badBlock? first destination.length with
  | some block => rfl
  | none =>
    dsimp only
    split <;> rfl

/-- A device in memory gives its data around its bad blocks, whatever size it claims. -/
theorem heldAround_image {d : MemoryDevice} (hpos : 0 < d.blockSize.toNat) :
    (d.image hpos).HeldAround (· ∈ d.badBlocks) (BlockDevice.blockCount d) d := by
  refine ⟨fun e => ∃ reads, e = { d with reads }, ⟨d.reads, rfl⟩, ?_⟩
  rintro e ⟨reads, rfl⟩
  refine ⟨rfl, rfl, fun first destination hne hwhole => ?_⟩
  obtain ⟨number, hnumber⟩ := hwhole
  have hlength : destination.length = number * d.blockSize.toNat := by
    rw [hnumber, Nat.mul_comm]
    rfl
  have hnonzero : 0 < number := by
    refine Nat.pos_of_ne_zero fun hzero => hne ?_
    rw [← List.length_eq_zero_iff, hlength, hzero, Nat.zero_mul]
  have hreadable : (d.image hpos).IsReadable (· ∈ d.badBlocks) (first * d.blockSize.toNat)
        destination.length ↔
      first * d.blockSize.toNat + destination.length ≤ d.data.size ∧
        d.badBlock? first destination.length = none := by
    rw [hlength, badBlock?_eq_none_iff hpos]
    exact Image.isReadable_blocks hnonzero
  exact ⟨(read_outcome_eq_ok_iff _ _ _).trans hreadable.symm, read_destination, _, read_device ..⟩

/-- A device that holds these bytes and cannot read one of its blocks. -/
def withBadBlock (blockSize : UInt32) (bytes : Bytes) (block : Nat) : MemoryDevice :=
  { ofBytes blockSize bytes with badBlocks := [block] }

/-- The image on it has the bytes of the bad block too, although no read ever gives them. -/
theorem image_withBadBlock {blockSize : UInt32} {bytes : Bytes}
    (hpos : 0 < blockSize.toNat) (hdvd : blockSize.toNat ∣ bytes.length) (block : Nat) :
    (withBadBlock blockSize bytes block).image hpos =
      Image.mk bytes blockSize.toNat hpos blockSize.toNat_lt :=
  image_ofBytes hpos hdvd

/-- A device in memory with one bad block has the image around that block and tells how many blocks it
has. -/
theorem heldAround_withBadBlock {blockSize : UInt32} {bytes : Bytes}
    (hpos : 0 < blockSize.toNat) (hdvd : blockSize.toNat ∣ bytes.length) (block : Nat) :
    (Image.mk bytes blockSize.toNat hpos blockSize.toNat_lt).HeldAround (· ∈ [block])
      (.ok (.ofNat (bytes.length / blockSize.toNat))) (withBadBlock blockSize bytes block) := by
  have hcount : BlockDevice.blockCount (withBadBlock blockSize bytes block) =
      .ok (.ofNat ((ofBytes blockSize bytes).data.size / blockSize.toNat)) := rfl
  rw [← size_ofBytes hpos hdvd, ← hcount, ← image_withBadBlock hpos hdvd block]
  exact heldAround_image hpos

end MemoryDevice

/-! ## Devices of zeros -/

/-- A device of zeros gives all of them, and none of its blocks is bad, however many it has. -/
theorem BlankDevice.heldAround {d : BlankDevice} {image : Image}
    (hsize : image.blockSize = d.blockSize.toNat) (hbytes : image.bytes = Bytes.zeros d.length) :
    image.HeldAround (fun _ => False) (.ok d.blockCount) d := by
  refine ⟨(· = d), rfl, ?_⟩
  rintro e rfl
  refine ⟨hsize.symm, rfl, fun first destination hne hwhole => ?_⟩
  obtain ⟨number, hnumber⟩ := hwhole
  rw [Nat.mul_comm] at hnumber
  have hnonzero : 0 < number := by
    refine Nat.pos_of_ne_zero fun hzero => hne ?_
    rw [← List.length_eq_zero_iff, hnumber, hzero, Nat.zero_mul]
  have hreadable : image.IsReadable (fun _ => False) (first * image.blockSize) destination.length ↔
      first * e.blockSize.toNat + destination.length ≤ e.length := by
    rw [hnumber, Image.isReadable_blocks hnonzero, hbytes, Bytes.length_zeros, hsize]
    exact and_iff_left fun _ _ _ h => h
  have hread : BlockDevice.readBlocks e first destination = if _ then _ else _ := rfl
  rw [hread, hreadable]
  split
  · next hinside =>
    rw [hbytes, hsize]
    exact ⟨iff_of_true rfl hinside, fun _ => (Bytes.slice_replicate 0 hinside).symm, rfl⟩
  · next hpast => exact ⟨iff_of_false (fun h => (nomatch h)) hpast, fun h => (nomatch h), rfl⟩

end Ecma119
