import Ecma119.Proofs.Device.Image

/-!
# Devices that fail

`Image.ToldBy` asks less of a device than `Image.HeldBy`: any read may fail, at any time, but one that
succeeds gives the bytes of the image. What a failing read makes of its destination is a relation
between what was there and what is left. A device in memory leaves the destination alone; a
`FadingDevice` does not.
-/

namespace Ecma119

namespace Image

variable {δ : Type} [BlockDevice δ]

/-- A read of whole blocks gives the bytes of the image or fails, and leaves the device in one of
`states`. -/
structure ToldOnceBy (image : Image) (leaves : Bytes → Bytes → Prop) (states : δ → Prop)
    (device : δ) : Prop where
  blockSize_eq : (BlockDevice.blockSize device).toNat = image.blockSize
  readBlocks : ∀ (first : Nat) (destination : Bytes), image.blockSize ∣ destination.length →
    let read := BlockDevice.readBlocks device first destination
    states read.device ∧
      (read.outcome = .ok () →
        first * image.blockSize + destination.length ≤ image.bytes.length ∧
        read.destination = image.bytes.slice (first * image.blockSize) destination.length) ∧
      (∀ message, read.outcome = .error message →
        read.destination.length = destination.length ∧ leaves destination read.destination)

/-- What the device gives are the bytes of the image, now and after any reads. Reads that fail leave
their destination so. -/
def ToldBy (image : Image) (leaves : Bytes → Bytes → Prop) (device : δ) : Prop :=
  ∃ states : δ → Prop, states device ∧ ∀ d, states d → image.ToldOnceBy leaves states d

variable {image : Image} {leaves : Bytes → Bytes → Prop} {device : δ}

/-- A device that tells the image does so in the next read, and goes on doing so after that. -/
theorem ToldBy.once (h : image.ToldBy leaves device) :
    image.ToldOnceBy leaves (image.ToldBy leaves) device := by
  obtain ⟨states, hdevice, hstates⟩ := h
  refine ⟨(hstates _ hdevice).blockSize_eq, fun first destination hwhole => ?_⟩
  obtain ⟨hnext, hread⟩ := (hstates _ hdevice).readBlocks first destination hwhole
  exact ⟨⟨states, hnext, hstates⟩, hread⟩

end Image

/-! ## Devices in memory -/

namespace MemoryDevice

/-- A read that succeeds gives the data, and one that fails leaves the destination alone. -/
theorem read_cases (d : MemoryDevice) (first : Nat) (destination : Bytes) :
    let reads := (first, destination.length) :: d.reads
    (d.badBlock? first destination.length = none ∧
      first * d.blockSize.toNat + destination.length ≤ d.data.size ∧
      d.read first destination = ⟨.ok (), (d.data.extract (first * d.blockSize.toNat)
        (first * d.blockSize.toNat + destination.length)).toList, { d with reads }⟩) ∨
    ∃ message, d.read first destination = ⟨.error message, destination, { d with reads }⟩ := by
  rw [read]
  cases d.badBlock? first destination.length with
  | some block => exact .inr ⟨_, rfl⟩
  | none =>
    dsimp only
    split
    · exact .inr ⟨_, rfl⟩
    · exact .inl ⟨rfl, by omega, rfl⟩

/-- A device tells its data, with bad blocks and wrong claims too, and leaves a destination alone when it
fails. -/
theorem toldBy_image {d : MemoryDevice} (hpos : 0 < d.blockSize.toNat) :
    (d.image hpos).ToldBy (fun before after => after = before) d := by
  refine ⟨fun e => ∃ reads, e = { d with reads }, ⟨d.reads, rfl⟩, ?_⟩
  rintro e ⟨reads, rfl⟩
  refine ⟨rfl, fun first destination _ => ?_⟩
  dsimp only
  rcases read_cases { d with reads } first destination with ⟨-, hinside, hrun⟩ | ⟨message, hrun⟩
  · have hread : BlockDevice.readBlocks ({ d with reads } : MemoryDevice) first destination = _ :=
      hrun
    rw [hread]
    refine ⟨⟨_, rfl⟩, fun _ => ⟨by simpa [image] using hinside, ?_⟩, fun _ h => (by cases h)⟩
    simp [image, Bytes.slice]
  · have hread : BlockDevice.readBlocks ({ d with reads } : MemoryDevice) first destination = _ :=
      hrun
    rw [hread]
    exact ⟨⟨_, rfl⟩, fun h => (by cases h), fun _ _ => ⟨rfl, rfl⟩⟩

end MemoryDevice

/-! ## Devices that spoil the destination -/

/-- A device with the bytes of an image that can be read some more times. After that every read fails
and fills its destination with one byte. It claims as many blocks as can be counted. -/
structure FadingDevice where
  image : Image
  /-- The number of reads that are left. -/
  left : Nat
  filling : UInt8

namespace FadingDevice

/-- Reads blocks, once less from now on. -/
def read (d : FadingDevice) (first : Nat) (destination : Bytes) : BlockRead FadingDevice :=
  let start := first * d.image.blockSize
  let device := { d with left := d.left - 1 }
  if 0 < d.left ∧ start + destination.length ≤ d.image.bytes.length then
    ⟨.ok (), d.image.bytes.slice start destination.length, device⟩
  else ⟨.error "device fails", List.replicate destination.length d.filling, device⟩

def blockCount (d : FadingDevice) : UInt64 := .ofNat ((2 ^ 64 - 1) / d.image.blockSize)

instance : BlockDevice FadingDevice where
  blockSize d := .ofNat d.image.blockSize
  blockCount d := .ok d.blockCount
  readBlocks := read

theorem toNat_blockSize (d : FadingDevice) :
    (BlockDevice.blockSize d).toNat = d.image.blockSize :=
  (UInt32.toNat_ofNat' ..).trans (Nat.mod_eq_of_lt d.image.blockSize_lt)

/-- The number of bytes that a source takes it to have. -/
def claimed (d : FadingDevice) : UInt64 := d.blockCount * (BlockDevice.blockSize d).toUInt64

/-- It claims more bytes than the offset of any sector, so that no read is refused for its length. -/
theorem lt_toNat_claimed (d : FadingDevice) : 2 ^ 64 - 2 ^ 32 < d.claimed.toNat := by
  have hlt := d.image.blockSize_lt
  have hpos := d.image.blockSize_pos
  have hsplit := Nat.div_add_mod' (2 ^ 64 - 1) d.image.blockSize
  have hrest := Nat.mod_lt (2 ^ 64 - 1) hpos
  have hcount : (2 ^ 64 - 1) / d.image.blockSize < 2 ^ 64 :=
    Nat.lt_of_le_of_lt (Nat.div_le_self _ _) (by decide)
  have hbytes : d.claimed.toNat = (2 ^ 64 - 1) / d.image.blockSize * d.image.blockSize := by
    rw [claimed, UInt64.toNat_mul, UInt32.toNat_toUInt64, toNat_blockSize, blockCount,
      UInt64.toNat_ofNat', Nat.mod_eq_of_lt hcount, Nat.mod_eq_of_lt (by omega)]
  omega

/-- A read before the device has faded gives the bytes of the image, and one fewer is left. -/
theorem read_ok {d : FadingDevice} (hleft : 0 < d.left) (first : Nat) (destination : Bytes)
    (hend : first * d.image.blockSize + destination.length ≤ d.image.bytes.length) :
    d.read first destination =
      ⟨.ok (), d.image.bytes.slice (first * d.image.blockSize) destination.length,
        { d with left := d.left - 1 }⟩ :=
  if_pos ⟨hleft, hend⟩

/-- Once the device has faded, a read fails and spoils the destination: it is filled with copies of one
byte. -/
theorem read_error {d : FadingDevice} (hleft : d.left = 0) (first : Nat) (destination : Bytes) :
    d.read first destination = ⟨.error "device fails",
      List.replicate destination.length d.filling, { d with left := d.left - 1 }⟩ :=
  if_neg fun h => absurd h.1 (by omega)

/-- What it gives are the bytes of the image, as long as it gives any. Of what a failing read leaves
nothing is said. -/
theorem toldBy_image (d : FadingDevice) : d.image.ToldBy (fun _ _ => True) d := by
  refine ⟨fun e => e.image = d.image, rfl, ?_⟩
  rintro e he
  rw [← he]
  refine ⟨e.toNat_blockSize, fun first destination _ => ?_⟩
  by_cases h : 0 < e.left ∧ first * e.image.blockSize + destination.length ≤ e.image.bytes.length
  · have hread : BlockDevice.readBlocks e first destination = _ :=
      read_ok h.1 first destination h.2
    dsimp only
    rw [hread]
    exact ⟨rfl, fun _ => ⟨h.2, rfl⟩, fun _ h => (by cases h)⟩
  · have hread : BlockDevice.readBlocks e first destination = _ := if_neg h
    dsimp only
    rw [hread]
    exact ⟨rfl, fun h => (by cases h), fun _ _ => ⟨List.length_replicate, trivial⟩⟩

end FadingDevice

end Ecma119
