import Ecma119.Proofs.Source.Following

/-!
# The same sectors under another framing

`Reframes` says that a second image holds, under a framing of its own, the sectors of a first one that is
bare sectors and nothing else. Whatever can be read in the first is then the same in the second; the
second may have more. A failure to read the first image is not carried over, all others are.
-/

namespace Ecma119

/-- The `count` bare sectors of one image are those of another under a framing. -/
structure Reframes (image image' : Image) (framing : Framing) (count : Nat) : Prop where
  count_le : count ≤ 2 ^ 32
  length_eq : image.bytes.length = count * sectorSize
  sectorSize_le : sectorSize ≤ framing.frameSize.toNat
  dataStart_nonneg : 0 ≤ framing.dataStart.toInt
  le_length : count * framing.frameSize.toNat + framing.dataStart.toInt ≤ image'.bytes.length
  sectors_eq : ∀ lsn : UInt32, lsn.toNat < count → ∃ offset ∈ framing.byteOffset? lsn,
    image'.bytes.slice offset sectorSize = image.bytes.slice (lsn.toNat * sectorSize) sectorSize

/-- The place right behind the first `count` sectors is found too, where a sector has that number. -/
def Framing.FindsEnd (framing : Framing) (count : Nat) : Prop :=
  ∀ lsn : UInt32, lsn.toNat = count → (framing.byteOffset? lsn).isSome

def Error.IsNotIo : Error → Prop
  | .io _ _ => False
  | _ => True

namespace Image

variable {image image' : Image} {framing framing' : Framing}

/-! ## At once and one by one -/

/-- Sectors without gaps are read one by one as they are read at once, if each is found. -/
theorem readEachSector_of_isContiguous (hcontiguous : framing.isContiguous = true) {lsn : UInt32}
    {offset count : Nat} (hoffset : framing.byteOffset? lsn = some offset)
    (hlast : lsn.toNat + count ≤ 2 ^ 32)
    (hfound : ∀ index < count, (framing.byteOffset? (lsn + UInt32.ofNat index)).isSome)
    (hend : offset + count * sectorSize ≤ image.bytes.length) :
    image.readEachSector framing lsn count =
      .ok (image.bytes.slice offset (count * sectorSize)) := by
  induction count generalizing lsn offset with
  | zero => rw [readEachSector, Nat.zero_mul, Bytes.slice, List.take_zero]
  | succ count ih =>
    have hfirst : offset + sectorSize ≤ image.bytes.length := by
      dsimp only [sectorSize] at hend ⊢
      omega
    have hsize : framing.frameSize.toNat = sectorSize := by
      simpa [Framing.isContiguous] using hcontiguous
    have hsector : image.readSector framing lsn = .ok (image.bytes.slice offset sectorSize) :=
      readSector_eq_ok.mpr ⟨offset, hoffset, hfirst, rfl⟩
    have hrest : image.readEachSector framing (lsn + 1) count =
        .ok (image.bytes.slice (offset + sectorSize) (count * sectorSize)) := by
      by_cases hcount : count = 0
      -- The number behind the last sector of all is none that could be looked up.
      · subst hcount
        rw [readEachSector, Nat.zero_mul, Bytes.slice, List.take_zero]
      · have hnext : (lsn + 1).toNat = lsn.toNat + 1 :=
          toNat_lsn_add (show lsn.toNat + 1 < 2 ^ 32 by omega)
        refine ih ?_ (by omega) (fun index hindex => ?_) (by dsimp only [sectorSize] at hend ⊢; omega)
        · have hsecond := Framing.byteOffset?_add_index hlast hfound hoffset 1 (by omega)
          rwa [Nat.one_mul, hsize] at hsecond
        · rw [← lsn_add_succ]
          exact hfound (index + 1) (by omega)
    refine readEachSector_succ_eq_ok.mpr ⟨_, _, hsector, hrest, ?_⟩
    rw [Nat.succ_mul, Nat.add_comm (count * sectorSize), Bytes.slice_add]

/-- Sectors that are found and of which the bytes are there are read at once as they are read one by
one. -/
theorem readSectors_eq_readEachSector {lsn count : UInt32} {offset : Nat}
    (hoffset : framing.byteOffset? lsn = some offset)
    (hlast : lsn.toNat + count.toNat ≤ 2 ^ 32)
    (hfound : ∀ index < count.toNat, (framing.byteOffset? (lsn + UInt32.ofNat index)).isSome)
    (hend : offset + count.toNat * sectorSize ≤ image.bytes.length) :
    image.readSectors framing lsn count = image.readEachSector framing lsn count.toNat := by
  rw [readSectors_eq hoffset, if_neg (by omega)]
  split
  · next hcontiguous =>
    rw [readEachSector_of_isContiguous hcontiguous hoffset hlast hfound hend, readBytes]
    split
    · next hzero => rw [hzero, Bytes.slice, List.take_zero]
    · rw [if_neg (by omega)]
  · rfl

/-- Nothing is read from a sector that is not found, not even no sectors: its place is looked up first.
-/
theorem readSectors_of_eq_none {lsn : UInt32} (hoffset : framing.byteOffset? lsn = none)
    (count : UInt32) : image.readSectors framing lsn count =
      .error (.io lsn.toNat "sector lies before start of source") := by
  rw [readSectors, sectorOffset, hoffset]
  rfl

/-- What is read one by one carries over as the sectors do, by induction on how many there are. -/
theorem readEachSector_carryOver (hcarry : SectorsCarryOver image image' framing framing')
    {lsn : UInt32} {count : Nat} {bytes : Bytes}
    (h : image.readEachSector framing lsn count = .ok bytes) :
    image'.readEachSector framing' lsn count = .ok bytes := by
  induction count generalizing lsn bytes with
  | zero => exact h
  | succ count ih =>
    obtain ⟨sector, rest, hsector, hrest, rfl⟩ := readEachSector_succ_eq_ok.mp h
    exact readEachSector_succ_eq_ok.mpr ⟨sector, rest, hcarry lsn sector hsector, ih hrest, rfl⟩

end Image

/-! ## What is carried over -/

namespace Reframes

variable {image image' : Image} {framing : Framing} {count : Nat}

/-- Without frames a sector lies at as many times its length as its number says; no number of 32 bits
leads too far. -/
theorem byteOffset?_standard (lsn : UInt32) :
    Framing.standard.byteOffset? lsn = some (lsn.toNat * sectorSize) := by
  have hlsn := lsn.toNat_lt
  have hplace : Framing.standard.place lsn = (lsn.toNat * 2048 : Nat) := by
    show ((lsn.toNat * 2048 : Nat) : Int) + 0 = _
    rw [Int.add_zero]
  rw [Framing.byteOffset?_eq_some_of_lt (by omega), hplace]

/-- Every sector that the first image has is found in the second, as the images are framed so. -/
theorem isSome_byteOffset? (h : Reframes image image' framing count) {lsn : UInt32}
    (hlt : lsn.toNat < count) : (framing.byteOffset? lsn).isSome := by
  obtain ⟨offset, hoffset, -⟩ := h.sectors_eq lsn hlt
  rw [Option.mem_def.mp hoffset]
  rfl

/-- What is found is found where it lies: beyond `2 ^ 63` nothing is, and the image is not long enough to
wrap around. -/
theorem byteOffset?_eq (h : Reframes image image' framing count) (hcounted : image'.bytes.length < 2 ^ 64)
    {lsn : UInt32} (hle : lsn.toNat ≤ count) (hfound : (framing.byteOffset? lsn).isSome) :
    framing.byteOffset? lsn =
      some (lsn.toNat * framing.frameSize.toNat + framing.dataStart.toInt.toNat) := by
  have hstart := h.dataStart_nonneg
  have hplace : framing.place lsn =
      (lsn.toNat * framing.frameSize.toNat + framing.dataStart.toInt.toNat : Nat) := by
    rw [Framing.place]
    omega
  have hbefore : lsn.toNat * framing.frameSize.toNat ≤ count * framing.frameSize.toNat :=
    Nat.mul_le_mul_right _ hle
  have hlength := h.le_length
  have hreach : framing.place lsn < 2 ^ 63 := by
    refine Int.lt_of_not_ge fun hfar => ?_
    rw [Framing.byteOffset?_eq_none hfar (by omega)] at hfound
    cases hfound
  rw [Framing.byteOffset?_eq_some_of_lt hreach, hplace]

/-- The first sectors of the second image lie in it, with all that stands between them. -/
theorem add_le_length (h : Reframes image image' framing count) {first more : Nat}
    (hle : first + more ≤ count) :
    first * framing.frameSize.toNat + framing.dataStart.toInt.toNat + more * sectorSize ≤
      image'.bytes.length := by
  have hall : (first + more) * framing.frameSize.toNat ≤ count * framing.frameSize.toNat :=
    Nat.mul_le_mul_right _ hle
  have hmore : more * sectorSize ≤ more * framing.frameSize.toNat :=
    Nat.mul_le_mul_left _ h.sectorSize_le
  have hstart := h.dataStart_nonneg
  have hlength := h.le_length
  rw [Nat.add_mul] at hall
  omega

/-- The second image is no shorter, as each frame has room for a sector. -/
theorem length_le (h : Reframes image image' framing count) :
    image.bytes.length ≤ image'.bytes.length := by
  have hle := h.add_le_length (Nat.le_of_eq (Nat.zero_add count))
  rw [h.length_eq]
  omega

/-- A sector that lies in the first image is read from both, and is the same. -/
theorem readSector_eq (h : Reframes image image' framing count)
    (hcounted : image'.bytes.length < 2 ^ 64) {lsn : UInt32} (hlt : lsn.toNat < count) :
    image'.readSector framing lsn = image.readSector .standard lsn := by
  have hend : lsn.toNat * sectorSize + sectorSize ≤ image.bytes.length := by
    rw [h.length_eq, ← Nat.succ_mul]
    exact Nat.mul_le_mul_right _ hlt
  have hend' := h.add_le_length (show lsn.toNat + 1 ≤ count from hlt)
  rw [Nat.one_mul] at hend'
  have hoffset := h.byteOffset?_eq hcounted (Nat.le_of_lt hlt) (h.isSome_byteOffset? hlt)
  obtain ⟨offset, hfound, hsame⟩ := h.sectors_eq lsn hlt
  obtain rfl := Option.some.inj (hoffset.symm.trans hfound)
  rw [Image.readSector_eq_ok.mpr ⟨_, byteOffset?_standard lsn, hend, rfl⟩,
    Image.readSector_eq_ok.mpr ⟨_, hoffset, hend', rfl⟩, hsame]

/-- A sector that does not lie in the first image is a failure of the device, and of nothing that was
recorded. -/
theorem readSector_eq_error (h : Reframes image image' framing count) {lsn : UInt32}
    (hle : count ≤ lsn.toNat) :
    ∃ lba message, image.readSector .standard lsn = .error (.io lba message) := by
  refine ⟨_, _, Image.readSector_of_length_lt (byteOffset?_standard lsn) ?_⟩
  have hmul : count * sectorSize ≤ lsn.toNat * sectorSize := Nat.mul_le_mul_right _ hle
  rw [h.length_eq]
  dsimp only [sectorSize] at hmul ⊢
  omega

/-- Sectors that can be read without frames are read the same in frames, wherever they lie in these. -/
theorem sectorsCarryOver (h : Reframes image image' framing count)
    (hcounted : image'.bytes.length < 2 ^ 64) : SectorsCarryOver image image' .standard framing := by
  intro lsn sector hsector
  by_cases hlt : lsn.toNat < count
  · rw [h.readSector_eq hcounted hlt]
    exact hsector
  · obtain ⟨lba, message, herror⟩ := h.readSector_eq_error (Nat.le_of_not_lt hlt)
    rw [herror] at hsector
    cases hsector

/-- The sectors that the first image has are read from the second one by one as they are at once. -/
theorem readSectors_eq_readEachSector (h : Reframes image image' framing count)
    (hcounted : image'.bytes.length < 2 ^ 64) (hend : framing.FindsEnd count) {lsn number : UInt32}
    (hle : lsn.toNat + number.toNat ≤ count) :
    image'.readSectors framing lsn number = image'.readEachSector framing lsn number.toNat := by
  have hlast := Nat.le_trans hle h.count_le
  -- No sectors may be asked for right behind the last.
  have hfirst : (framing.byteOffset? lsn).isSome := by
    rcases Nat.lt_or_eq_of_le (Nat.le_trans (Nat.le_add_right _ _) hle) with hlt | heq
    · exact h.isSome_byteOffset? hlt
    · exact hend lsn heq
  refine Image.readSectors_eq_readEachSector (h.byteOffset?_eq hcounted (by omega) hfirst) hlast
    (fun index hindex => h.isSome_byteOffset? ?_) (h.add_le_length hle)
  rw [Ecma119.toNat_lsn_add (by omega)]
  omega

/-- Reading sectors of the second image follows reading them of the first, unless that fails. -/
theorem sectorsFollow {δ ε : Type} [BlockDevice δ] [BlockDevice ε]
    (h : Reframes image image' framing count) (hcounted : image'.bytes.length < 2 ^ 64)
    (hend : framing.FindsEnd count) :
    SectorsFollow (δ := δ) (ε := ε) (BothServe image image' .standard framing) Error.IsNotIo := by
  refine .of_images (fun lsn hcarried => ?_) (fun lsn number hcarried => ?_)
  -- A sector is in the first image, or reading it is a failure of the device.
  · by_cases hlt : lsn.toNat < count
    · exact h.readSector_eq hcounted hlt
    · obtain ⟨lba, message, herror⟩ := h.readSector_eq_error (Nat.le_of_not_lt hlt)
      rw [herror] at hcarried
      exact hcarried.elim
  · by_cases hinside : lsn.toNat * sectorSize + number.toNat * sectorSize ≤ image.bytes.length
    · have hle : lsn.toNat + number.toNat ≤ count := by
        rw [h.length_eq, ← Nat.add_mul] at hinside
        exact Nat.le_of_mul_le_mul_right hinside (by decide)
      have hlast := Nat.le_trans hle h.count_le
      have hfound (index : Nat) (_ : index < number.toNat) :
          (Framing.standard.byteOffset? (lsn + UInt32.ofNat index)).isSome := by
        rw [byteOffset?_standard]
        rfl
      -- The first source reads them at once, the second perhaps one by one.
      rw [Image.readSectors_eq_readEachSector (byteOffset?_standard lsn) hlast hfound hinside,
        h.readSectors_eq_readEachSector hcounted hend hle]
      have hread := Image.readEachSector_of_isContiguous rfl (byteOffset?_standard lsn) hlast hfound
        hinside
      rw [hread]
      exact Image.readEachSector_carryOver (h.sectorsCarryOver hcounted) hread
    · rw [Image.readSectors_eq (byteOffset?_standard lsn),
        if_pos (Nat.lt_of_not_le hinside)] at hcarried
      exact hcarried.elim

end Reframes

end Ecma119
