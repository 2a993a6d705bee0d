import Ecma119.Source
import Mathlib.Algebra.GroupWithZero.Nat
import Mathlib.Algebra.Ring.Int.Defs

/-!
# Where sectors lie

`Framing.place` is where the data of a sector lies in an image, worked out without bounds. A source works
it out in 64 bits with a sign (`Framing.byteOffset?`), so that it finds a sector where it lies as long as
that is below `2 ^ 63`. A sector that lies farther on is taken for one before the start, or, from `2 ^ 64`
on, found where another one lies.
-/

namespace Ecma119

/-- The numbers of sectors that follow each other do not wrap around. -/
theorem toNat_lsn_add {lsn : UInt32} {index : Nat} (h : lsn.toNat + index < 2 ^ 32) :
    (lsn + UInt32.ofNat index).toNat = lsn.toNat + index := by
  rw [UInt32.toNat_add, UInt32.toNat_ofNat', Nat.mod_eq_of_lt (a := index) (by omega),
    Nat.mod_eq_of_lt h]

/-- The sectors from the next one on are those behind this one, also where the numbers wrap around. -/
theorem lsn_add_succ (lsn : UInt32) (index : Nat) :
    lsn + UInt32.ofNat (index + 1) = lsn + 1 + UInt32.ofNat index := by
  rw [UInt32.ofNat_add, UInt32.add_assoc, UInt32.add_comm 1]
  rfl

namespace Framing

variable {f : Framing} {lsn lsn' : UInt32} {offset offset' : Nat}

/-- Where the data of a sector lies, worked out without bounds. -/
def place (f : Framing) (lsn : UInt32) : Int :=
  (lsn.toNat * f.frameSize.toNat : Nat) + f.dataStart.toInt

/-- The offset that a source works out is the place with whatever is too much for 64 bits cut off. -/
theorem toInt_offset (f : Framing) (lsn : UInt32) :
    (Int64.ofNat lsn.toNat * Int64.ofNat f.frameSize.toNat + f.dataStart).toInt =
      (f.place lsn).bmod (2 ^ 64) := by
  have hlsn := lsn.toNat_lt
  have hsize := f.frameSize.toNat_lt
  rw [Int64.toInt_add, Int64.toInt_mul, Int64.toInt_ofNat_of_lt (by omega),
    Int64.toInt_ofNat_of_lt (by omega), Int.bmod_add_bmod, place, Int.natCast_mul]

/-- A sector is found at an offset if the place is that, but for multiples of `2 ^ 64`. -/
theorem byteOffset?_eq_some : f.byteOffset? lsn = some offset ↔
    (f.place lsn).bmod (2 ^ 64) = offset := by
  rw [byteOffset?, ← toInt_offset]
  generalize Int64.ofNat lsn.toNat * Int64.ofNat f.frameSize.toNat + f.dataStart = found
  have hsign : 0 ≤ found ↔ 0 ≤ found.toInt := Int64.le_iff_toInt_le
  split
  · next hle =>
    have hnonneg := hsign.mp hle
    rw [Option.some_inj, Int64.toNatClampNeg, ← Int.toNat_of_nonneg hnonneg, Int.toNat_natCast,
      Int.ofNat_inj]
  · next hlt =>
    refine ⟨fun h => (nomatch h), fun h => absurd (hsign.mpr ?_) hlt⟩
    rw [h]
    exact Int.natCast_nonneg offset

/-- Every offset that is worked out is less than `2 ^ 63`, as it is a number of 64 bits with a sign. -/
theorem byteOffset?_lt (h : f.byteOffset? lsn = some offset) : offset < 2 ^ 63 := by
  rw [byteOffset?_eq_some] at h
  have hlt := Int.bmod_lt (x := f.place lsn) (m := 2 ^ 64) (by decide)
  omega

/-- No sector lies farther in front of the image than 64 bits with a sign can tell. -/
theorem le_place (f : Framing) (lsn : UInt32) : -2 ^ 63 ≤ f.place lsn := by
  have hstart := f.dataStart.le_toInt
  rw [place]
  omega

/-- A sector is found where it lies, if that is below `2 ^ 63`, and then nowhere else. -/
theorem byteOffset?_eq_some_of_lt (h : f.place lsn < 2 ^ 63) :
    f.byteOffset? lsn = some offset ↔ f.place lsn = offset := by
  have hle := f.le_place lsn
  rw [byteOffset?_eq_some, Int.bmod_eq_of_le (by omega) (by omega)]

/-- A sector that lies from `2 ^ 63` on, but below `2 ^ 64`, is taken for one before the start. -/
theorem byteOffset?_eq_none (h : 2 ^ 63 ≤ f.place lsn) (h' : f.place lsn < 2 ^ 64) :
    f.byteOffset? lsn = none := by
  rw [Option.eq_none_iff_forall_ne_some]
  intro offset hoffset
  rw [byteOffset?_eq_some, Int.bmod_def] at hoffset
  omega

/-- What lies a little farther on is found as much farther on, unless that is from `2 ^ 63` on. -/
theorem byteOffset?_add {gap : Nat} (h : f.byteOffset? lsn = some offset)
    (hplace : f.place lsn' = f.place lsn + gap) (hgap : gap ≤ 2 ^ 63) :
    f.byteOffset? lsn' = some offset' ↔ offset' = offset + gap ∧ offset + gap < 2 ^ 63 := by
  have hlt := byteOffset?_lt h
  rw [byteOffset?_eq_some] at h ⊢
  rw [hplace, ← Int.bmod_add_bmod, h, Int.bmod_def]
  omega

/-- The places of sectors that follow each other are one frame apart, also before the start of the image.
-/
theorem place_add {index : Nat} (h : lsn.toNat + index < 2 ^ 32) :
    f.place (lsn + UInt32.ofNat index) = f.place lsn + (index * f.frameSize.toNat : Nat) := by
  rw [place, place, toNat_lsn_add h, Nat.add_mul]
  omega

/-- Sectors that follow each other and are found are found one frame apart, as none is taken for another.
-/
theorem byteOffset?_add_index {count : Nat} (hlast : lsn.toNat + count ≤ 2 ^ 32)
    (hfound : ∀ index < count, (f.byteOffset? (lsn + UInt32.ofNat index)).isSome)
    (h : f.byteOffset? lsn = some offset) (index : Nat) (hindex : index < count) :
    f.byteOffset? (lsn + UInt32.ofNat index) = some (offset + index * f.frameSize.toNat) := by
  induction index with
  | zero => rwa [Nat.zero_mul, Nat.add_zero, show lsn + UInt32.ofNat 0 = lsn from UInt32.add_zero lsn]
  | succ index ih =>
    obtain ⟨next, hnext⟩ := Option.isSome_iff_exists.mp (hfound (index + 1) hindex)
    have hplace : f.place (lsn + UInt32.ofNat (index + 1)) =
        f.place (lsn + UInt32.ofNat index) + f.frameSize.toNat := by
      rw [place_add (by omega), place_add (by omega), Nat.succ_mul]
      omega
    have hsize := f.frameSize.toNat_lt
    obtain ⟨heq, -⟩ := (byteOffset?_add (ih (by omega)) hplace (by omega)).mp hnext
    rw [hnext, heq, Nat.succ_mul, Nat.add_assoc]

/-- Of sectors without gaps, all are found if the first and the last are. -/
theorem byteOffset?_of_isContiguous (hcontiguous : f.isContiguous = true) {count index : Nat}
    (hlast : lsn.toNat + count < 2 ^ 32) (h : f.byteOffset? lsn = some offset)
    (hfound : (f.byteOffset? (lsn + UInt32.ofNat count)).isSome) (hindex : index ≤ count) :
    f.byteOffset? (lsn + UInt32.ofNat index) = some (offset + index * sectorSize) := by
  have hsize : f.frameSize.toNat = sectorSize := by simpa [isContiguous] using hcontiguous
  have hplace (i : Nat) (hi : i ≤ count) :
      f.place (lsn + UInt32.ofNat i) = f.place lsn + (i * 2048 : Nat) := by
    rw [place_add (by omega), hsize]
  obtain ⟨last, hlast'⟩ := Option.isSome_iff_exists.mp hfound
  obtain ⟨-, hlt⟩ := (byteOffset?_add h (hplace count (Nat.le_refl _)) (by omega)).mp hlast'
  rw [byteOffset?_add h (hplace index hindex) (by omega)]
  exact ⟨rfl, Nat.lt_of_le_of_lt
    (Nat.add_le_add_left (Nat.mul_le_mul_right 2048 hindex) offset) hlt⟩

/-- Bare sectors of which the second lies at `2 ^ 63`, and is not found. -/
def far : Framing := ⟨2048, 9223372036854773760⟩

/-- The second sector under the framing `far` lies at `2 ^ 63`, which a number of 64 bits with a sign
cannot tell. -/
theorem byteOffset?_far : far.byteOffset? 1 = none := by decide

end Framing

end Ecma119
