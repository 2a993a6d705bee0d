import Ecma119.Proofs.Bytes
import Ecma119.Source

/-!
# Devices that hold an image

`Image.HeldBy` says of a device that reads inside its length succeed and give the bytes of one image, in
every order and however many have been made before. Nothing is said of reads past the end, and the
device may keep state of its own, as long as that does not change what it gives.

A source counts the bytes of a device in 64 bits. A device that has more of them is taken for a shorter
one, and the image is no more than what is left of it then.
-/

namespace Ecma119

/-- Whole blocks stay as many when they are rounded up, so that a device made of them has no others. -/
theorem roundUp_blocks {blockSize : Nat} (hpos : 0 < blockSize) (count : Nat) :
    (count * blockSize + blockSize - 1) / blockSize = count := by
  rw [Nat.add_sub_assoc hpos, Nat.mul_comm, Nat.mul_add_div hpos, Nat.div_eq_of_lt (by omega),
    Nat.add_zero]

/-- Where the last of some blocks starts before the end of others, it ends no later than these. -/
theorem blocks_le_of_start_lt {blockSize number total : Nat}
    (h : number * blockSize < total * blockSize + blockSize) :
    number * blockSize ≤ total * blockSize := by
  rw [← Nat.succ_mul] at h
  exact Nat.mul_le_mul_right _ (Nat.le_of_lt_succ (Nat.lt_of_mul_lt_mul_right h))

/-- Bytes that are read in blocks. -/
structure Image where
  bytes : Bytes
  blockSize : Nat
  blockSize_pos : 0 < blockSize
  blockSize_lt : blockSize < 2 ^ 32

namespace Image

/-- The bytes, to be read in blocks of 512, of which a sector takes four. -/
def inShortBlocks (bytes : Bytes) : Image := ⟨bytes, 512, by decide, by decide⟩

/-- The bytes, to be read in blocks as long as a sector. -/
def inSectors (bytes : Bytes) : Image := ⟨bytes, sectorSize, by decide, by decide⟩

variable {δ : Type} [BlockDevice δ]

/-- The device has the blocks of the image and of what is behind it. It tells how many these are, and a
read of some of them gives their bytes and leaves the device in one of `states`. -/
structure AnsweredBy (image : Image) (behind : Bytes) (states : δ → Prop) (device : δ) : Prop where
  blockSize_eq : (BlockDevice.blockSize device).toNat = image.blockSize
  blockCount_eq : ∃ count, BlockDevice.blockCount device = .ok count ∧
    count.toNat * image.blockSize = (image.bytes ++ behind).length
  readBlocks : ∀ (first : Nat) (destination : Bytes), image.blockSize ∣ destination.length →
    first * image.blockSize + destination.length ≤ (image.bytes ++ behind).length →
      (BlockDevice.readBlocks device first destination).outcome = .ok () ∧
      (BlockDevice.readBlocks device first destination).destination =
        (image.bytes ++ behind).slice (first * image.blockSize) destination.length ∧
      states (BlockDevice.readBlocks device first destination).device

/-- The device gives the bytes of the image, now and after any reads. What it has behind them is whatever
is too much to be counted in 64 bits. -/
def HeldBy (image : Image) (device : δ) : Prop :=
  ∃ behind : Bytes, (image.bytes ++ behind).length % 2 ^ 64 = image.bytes.length ∧
    ∃ states : δ → Prop, states device ∧ ∀ d, states d → image.AnsweredBy behind states d

section HeldBy

variable {image : Image} {device : δ}

/-- A device that holds the image answers with its bytes and with what is behind it, which a count of 64
bits leaves out, and goes on holding it. -/
theorem HeldBy.answered (h : image.HeldBy device) :
    ∃ behind : Bytes, (image.bytes ++ behind).length % 2 ^ 64 = image.bytes.length ∧
      image.AnsweredBy behind image.HeldBy device := by
  obtain ⟨behind, hlength, states, hdevice, hstates⟩ := h
  refine ⟨behind, hlength, (hstates _ hdevice).blockSize_eq, (hstates _ hdevice).blockCount_eq, ?_⟩
  intro first destination hwhole hinside
  obtain ⟨hok, hbytes, hnext⟩ := (hstates _ hdevice).readBlocks first destination hwhole hinside
  exact ⟨hok, hbytes, behind, hlength, states, hnext, hstates⟩

/-- The blocks of a device that holds the image are as long as those of the image. -/
theorem HeldBy.blockSize_eq (h : image.HeldBy device) :
    (BlockDevice.blockSize device).toNat = image.blockSize := by
  obtain ⟨behind, -, hanswered⟩ := h.answered
  exact hanswered.blockSize_eq

/-- The image is as long as the blocks that the device tells of, with whatever is too much for 64 bits
cut off. -/
theorem HeldBy.blockCount_eq (h : image.HeldBy device) :
    ∃ count, BlockDevice.blockCount device = .ok count ∧
      image.bytes.length = count.toNat * image.blockSize % 2 ^ 64 := by
  obtain ⟨behind, hlength, hanswered⟩ := h.answered
  obtain ⟨count, hcount, hblocks⟩ := hanswered.blockCount_eq
  exact ⟨count, hcount, by rw [hblocks, hlength]⟩

/-- An image that a device holds has fewer than `2 ^ 64` bytes, as no more of them are counted. -/
theorem HeldBy.length_lt (h : image.HeldBy device) : image.bytes.length < 2 ^ 64 := by
  obtain ⟨behind, hlength, -⟩ := h.answered
  rw [← hlength]
  exact Nat.mod_lt _ (by decide)

/-- The number of bytes as a source works it out, from the blocks and their size, is that of the image.
-/
theorem HeldBy.mul_blockSize_eq (h : image.HeldBy device) {count : UInt64}
    (hlength : image.bytes.length = count.toNat * image.blockSize % 2 ^ 64) :
    count * (BlockDevice.blockSize device).toUInt64 = .ofNat image.bytes.length := by
  rw [← UInt64.toNat_inj, UInt64.toNat_mul, UInt32.toNat_toUInt64, h.blockSize_eq, ← hlength,
    UInt64.toNat_ofNat', Nat.mod_eq_of_lt h.length_lt]

/-- Blocks that start inside the image are read, and have its bytes in them. Only the last of them can
have bytes from behind the image. -/
theorem HeldBy.readBlocks (h : image.HeldBy device) {first : Nat} {destination : Bytes}
    (hwhole : image.blockSize ∣ destination.length)
    (hstart : first * image.blockSize + destination.length < image.bytes.length + image.blockSize) :
    let read := BlockDevice.readBlocks device first destination
    read.outcome = .ok () ∧ read.destination.length = destination.length ∧
      image.HeldBy read.device ∧
      ∀ offset count, first * image.blockSize ≤ offset →
        offset + count ≤ first * image.blockSize + destination.length →
        offset + count ≤ image.bytes.length →
          read.destination.slice (offset - first * image.blockSize) count =
            image.bytes.slice offset count := by
  obtain ⟨behind, hlength, hanswered⟩ := h.answered
  obtain ⟨total, -, htotal⟩ := hanswered.blockCount_eq
  have hinside :
      first * image.blockSize + destination.length ≤ (image.bytes ++ behind).length := by
    obtain ⟨number, hnumber⟩ := hwhole
    have hle : image.bytes.length ≤ (image.bytes ++ behind).length := by
      rw [List.length_append]
      exact Nat.le_add_right _ _
    rw [hnumber, Nat.mul_comm image.blockSize, ← Nat.add_mul] at hstart ⊢
    rw [← htotal] at hle ⊢
    exact blocks_le_of_start_lt (by omega)
  obtain ⟨hok, hbytes, hnext⟩ := hanswered.readBlocks first destination hwhole hinside
  intro read
  refine ⟨hok, ?_, hnext, fun offset count hfirst hlast hend => ?_⟩
  · rw [hbytes]
    exact Bytes.length_slice hinside
  · rw [hbytes, Bytes.slice_slice _ (by omega), Nat.add_sub_cancel' hfirst,
      Bytes.slice_append_left hend]

end HeldBy

end Image

/-! ## Devices in memory -/

namespace MemoryDevice

/-- The image on a device. -/
def image (d : MemoryDevice) (hpos : 0 < d.blockSize.toNat) : Image where
  bytes := d.data.toList
  blockSize := d.blockSize.toNat
  blockSize_pos := hpos
  blockSize_lt := d.blockSize.toNat_lt

/-- Whole blocks are held as they are, without a byte of filling behind them. -/
theorem toList_ofBytes {blockSize : UInt32} {bytes : Bytes} (hpos : 0 < blockSize.toNat)
    (hdvd : blockSize.toNat ∣ bytes.length) : (ofBytes blockSize bytes).data.toList = bytes := by
  obtain ⟨count, hcount⟩ := hdvd
  rw [Nat.mul_comm] at hcount
  have hblocks : (bytes.length + blockSize.toNat - 1) / blockSize.toNat = count :=
    hcount ▸ roundUp_blocks hpos count
  rw [ofBytes, hblocks, ← hcount, Bytes.fit, Nat.sub_self, List.take_length]
  simp

/-- A device in memory that is made of whole blocks has their bytes and no others. -/
theorem size_ofBytes {blockSize : UInt32} {bytes : Bytes} (hpos : 0 < blockSize.toNat)
    (hdvd : blockSize.toNat ∣ bytes.length) : (ofBytes blockSize bytes).data.size = bytes.length := by
  rw [← Array.length_toList, toList_ofBytes hpos hdvd]

/-- Whether the device tells its true size and can read all its blocks. -/
def isSound (d : MemoryDevice) : Bool :=
  d.claimedBlocks = none && d.badBlocks = [] && !d.sizeUnknown

/-- A read inside a device without faults gives its bytes and is written down; nothing else changes. -/
theorem read_of_isSound {d : MemoryDevice} (hsound : d.isSound = true) {first : Nat}
    {destination : Bytes}
    (hinside : first * d.blockSize.toNat + destination.length ≤ d.data.size) :
    d.read first destination = ⟨.ok (),
      (d.data.extract (first * d.blockSize.toNat)
        (first * d.blockSize.toNat + destination.length)).toList,
      { d with reads := (first, destination.length) :: d.reads }⟩ := by
  simp only [isSound, Bool.and_eq_true, decide_eq_true_eq] at hsound
  have hblock : d.badBlock? first destination.length = none := by simp [badBlock?, hsound.1.2]
  rw [read]
  simp only [hblock, if_neg (Nat.not_lt.mpr hinside)]

/-- A device without faults holds its data, if that is whole blocks and can be counted in 64 bits. -/
theorem heldBy_image {d : MemoryDevice} (hpos : 0 < d.blockSize.toNat)
    (hdvd : d.blockSize.toNat ∣ d.data.size) (hlt : d.data.size < 2 ^ 64)
    (hsound : d.isSound = true) : (d.image hpos).HeldBy d := by
  have hall : (d.image hpos).bytes ++ [] = d.data.toList := List.append_nil _
  refine ⟨[], by rw [hall, Array.length_toList, Nat.mod_eq_of_lt hlt]; rfl,
    fun e => e.data = d.data ∧ e.blockSize = d.blockSize ∧ e.isSound = true, ⟨rfl, rfl, hsound⟩, ?_⟩
  rintro e ⟨hdata, hsize, he⟩
  refine ⟨congrArg UInt32.toNat hsize, ⟨.ofNat (d.data.size / d.blockSize.toNat), ?_, ?_⟩, ?_⟩
  · have hflags := he
    simp only [isSound, Bool.and_eq_true, decide_eq_true_eq, Bool.not_eq_true'] at hflags
    show (if e.sizeUnknown then _ else _) = _
    rw [hflags.2, hflags.1.1, hdata, hsize]
    rfl
  · have hcount : d.data.size / d.blockSize.toNat < 2 ^ 64 :=
      Nat.lt_of_le_of_lt (Nat.div_le_self _ _) hlt
    rw [UInt64.toNat_ofNat', Nat.mod_eq_of_lt hcount, hall, Array.length_toList]
    exact Nat.div_mul_cancel hdvd
  · intro first destination _ hinside
    rw [hall, Array.length_toList] at hinside
    have hinside' : first * e.blockSize.toNat + destination.length ≤ e.data.size := by
      rw [hdata, hsize]
      exact hinside
    have hread : BlockDevice.readBlocks e first destination = _ := read_of_isSound he hinside'
    rw [hread, hall]
    refine ⟨rfl, ?_, hdata, hsize, he⟩
    simp [image, Bytes.slice, hdata, hsize]

/-- The image on a device with whole blocks of bytes has exactly these bytes, in blocks of that size. -/
theorem image_ofBytes {blockSize : UInt32} {bytes : Bytes} (hpos : 0 < blockSize.toNat)
    (hdvd : blockSize.toNat ∣ bytes.length) :
    (ofBytes blockSize bytes).image hpos =
      Image.mk bytes blockSize.toNat hpos blockSize.toNat_lt := by
  simp only [image, toList_ofBytes hpos hdvd]
  rfl

/-- A device with the bytes of an image holds it, if these are whole blocks and can be counted in 64
bits. -/
theorem heldBy_ofBytes {image : Image} {blockSize : UInt32} (hsize : blockSize.toNat = image.blockSize)
    (hdvd : image.blockSize ∣ image.bytes.length) (hlt : image.bytes.length < 2 ^ 64) :
    image.HeldBy (ofBytes blockSize image.bytes) := by
  obtain ⟨bytes, _, hpos, _⟩ := image
  subst hsize
  have hlength := size_ofBytes hpos hdvd
  have hheld := heldBy_image (d := ofBytes blockSize bytes) hpos (hlength.symm ▸ hdvd)
    (hlength.symm ▸ hlt) rfl
  rwa [image_ofBytes hpos hdvd] at hheld

end MemoryDevice

/-! ## Devices of zeros -/

/-- A device of blocks of zeros. It may have more of them than would ever be in memory. -/
structure BlankDevice where
  blockSize : UInt32
  blockCount : UInt64

namespace BlankDevice

def length (d : BlankDevice) : Nat := d.blockCount.toNat * d.blockSize.toNat

def read (d : BlankDevice) (first : Nat) (destination : Bytes) : BlockRead BlankDevice :=
  if first * d.blockSize.toNat + destination.length ≤ d.length then
    ⟨.ok (), Bytes.zeros destination.length, d⟩
  else ⟨.error "read beyond end of device", destination, d⟩

instance : BlockDevice BlankDevice where
  blockSize d := d.blockSize
  blockCount d := .ok d.blockCount
  readBlocks := read

/-- As many of its zeros as can be counted in 64 bits. -/
def image (d : BlankDevice) (hpos : 0 < d.blockSize.toNat) : Image where
  bytes := Bytes.zeros (d.length % 2 ^ 64)
  blockSize := d.blockSize.toNat
  blockSize_pos := hpos
  blockSize_lt := d.blockSize.toNat_lt

/-- A device of zeros holds the image of those that are counted. -/
theorem heldBy_image (d : BlankDevice) (hpos : 0 < d.blockSize.toNat) : (d.image hpos).HeldBy d := by
  have hall : (d.image hpos).bytes ++ Bytes.zeros (d.length - d.length % 2 ^ 64) =
      Bytes.zeros d.length := by
    refine List.replicate_append_replicate.trans ?_
    rw [Nat.add_sub_cancel' (Nat.mod_le _ _)]
    rfl
  refine ⟨_, by rw [hall, image, Bytes.length_zeros, Bytes.length_zeros], (· = d), rfl, ?_⟩
  rintro e rfl
  refine ⟨rfl, ⟨_, rfl, by rw [hall, Bytes.length_zeros]; rfl⟩, fun first destination _ hinside => ?_⟩
  rw [hall, Bytes.length_zeros] at hinside
  have hread : BlockDevice.readBlocks e first destination = _ := if_pos hinside
  rw [hread, hall]
  exact ⟨rfl, (Bytes.slice_replicate 0 hinside).symm, rfl⟩

def huge : BlankDevice := ⟨512, 18014398509481992⟩

theorem blockSize_huge_pos : 0 < huge.blockSize.toNat := by decide

/-- The zeros of it, all of which can be counted. -/
abbrev hugeImage : Image := huge.image blockSize_huge_pos

/-- The image on the device `huge` has `2 ^ 63 + 4096` bytes, so that its last two sectors start from `2
^ 63` on. -/
theorem length_hugeImage : hugeImage.bytes.length = 9223372036854779904 := Bytes.length_zeros _

end BlankDevice

/-! ## Devices that write down their reads -/

section Traced

/-- A device and the first block and the number of bytes of every read so far, in the order they were
made. -/
structure Traced (δ : Type) where
  device : δ
  reads : List (Nat × Nat)

variable {δ : Type} [BlockDevice δ]

instance : BlockDevice (Traced δ) where
  blockSize t := BlockDevice.blockSize t.device
  blockCount t := BlockDevice.blockCount t.device
  readBlocks t first destination :=
    let read := BlockDevice.readBlocks t.device first destination
    ⟨read.outcome, read.destination, ⟨read.device, t.reads ++ [(first, destination.length)]⟩⟩

/-- Writing reads down does not change what is read, so that an image is also held by a traced device. -/
theorem Image.HeldBy.traced {image : Image} {device : δ} (h : image.HeldBy device)
    (reads : List (Nat × Nat)) : image.HeldBy (Traced.mk device reads) := by
  obtain ⟨behind, hlength, states, hdevice, hstates⟩ := h
  refine ⟨behind, hlength, fun t => states t.device, hdevice, fun t ht => ?_⟩
  have hanswered := hstates t.device ht
  exact ⟨hanswered.blockSize_eq, hanswered.blockCount_eq, hanswered.readBlocks⟩

/-- The source, with its device writing down its reads from now on. -/
def SectorSource.traced (s : SectorSource δ) : SectorSource (Traced δ) where
  device := ⟨s.device, []⟩
  framing := s.framing
  knownLength := s.knownLength

end Traced

end Ecma119
