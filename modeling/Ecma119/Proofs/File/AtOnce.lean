import Ecma119.Proofs.File.Cut
import Ecma119.Proofs.Source.Reframing

/-!
# Extents read at once

The sectors of an extent follow each other, so they are read by one request. What that gives starts
with the bytes of the extent. A frame has to be as long as the sector in it: of shorter ones the end
of the image would be expected too late. Extents one behind the other are read so each (`readExtents`).
Fewer bytes are read at once as the first of more (`readExtents_cutTo`), whether the others are found one
by one or not.
-/

namespace Ecma119

/-- Sectors that can be read are read one by one, and what comes of it is these, one behind the other. -/
theorem Image.readEachSector_eq_joined {image : Image} {framing : Framing} {lsn : UInt32}
    {count : Nat} {piece : Nat → Bytes}
    (h : ∀ index < count, image.readSector framing (lsn + UInt32.ofNat index) = .ok (piece index)) :
    image.readEachSector framing lsn count = .ok (Bytes.joined piece count) := by
  induction count generalizing lsn piece with
  | zero => rfl
  | succ count ih =>
    have hfirst : image.readSector framing lsn = .ok (piece 0) := by
      have hlsn : lsn + UInt32.ofNat 0 = lsn := UInt32.add_zero lsn
      rw [← hlsn]
      exact h 0 (Nat.succ_pos count)
    have hrest : image.readEachSector framing (lsn + 1) count =
        .ok (Bytes.joined (fun index => piece (index + 1)) count) := by
      apply ih
      intro index hindex
      rw [← lsn_add_succ]
      exact h (index + 1) (Nat.succ_lt_succ hindex)
    exact readEachSector_succ_eq_ok.mpr ⟨_, _, hfirst, hrest, Bytes.joined_succ_front piece count⟩

/-- The sectors of an extent that is not empty are read at once, and its bytes come first in them. -/
theorem Extent.readSectors_eq {image : Image} {framing : Framing} {x : Extent}
    (h : x.LiesIn image framing) (hframe : sectorSize ≤ framing.frameSize.toNat)
    (hsize : 0 < x.size.toNat) :
    ∃ sectors, image.readSectors framing x.lsn x.sectorCount = .ok sectors ∧
      sectors.take x.size.toNat = x.bytesIn image framing := by
  have hcount : 0 < x.sectorCount.toNat := by
    rw [toNat_sectorCount]
    omega
  have hfound (index : Nat) (hindex : index < x.sectorCount.toNat) :
      (framing.byteOffset? (x.lsn + UInt32.ofNat index)).isSome := by
    obtain ⟨offset, hoffset, -⟩ := h.found index hindex
    rw [Option.mem_def.mp hoffset]
    rfl
  obtain ⟨offset, hoffset, -⟩ := h.found 0 hcount
  rw [Option.mem_def, show x.lsn + UInt32.ofNat 0 = x.lsn from UInt32.add_zero x.lsn] at hoffset
  -- The last sector ends no earlier than it would without gaps.
  have hend : offset + x.sectorCount.toNat * sectorSize ≤ image.bytes.length := by
    obtain ⟨before, hbefore⟩ := Nat.exists_eq_succ_of_ne_zero (Nat.ne_of_gt hcount)
    obtain ⟨last, hlast, hlength⟩ := h.found before (by omega)
    have hplace := Framing.byteOffset?_add_index h.endLsn_le hfound hoffset before (by omega)
    obtain rfl := Option.some.inj (hplace.symm.trans hlast)
    have hgaps : before * sectorSize ≤ before * framing.frameSize.toNat :=
      Nat.mul_le_mul_left _ hframe
    rw [hbefore, Nat.succ_mul]
    generalize sectorSize = size at hgaps hlength ⊢
    omega
  refine ⟨Bytes.joined (x.sectorIn image framing) x.sectorCount.toNat, ?_, rfl⟩
  rw [Image.readSectors_eq_readEachSector hoffset h.endLsn_le hfound hend]
  exact Image.readEachSector_eq_joined fun index => readSector_eq h

section Fewer

variable {image : Image} {framing : Framing}

/-! ## Fewer of them -/

/-- Where more sectors are read one by one, the first are what fewer would be. The induction is on these.
-/
theorem Image.readEachSector_add {lsn : UInt32} {count more : Nat} {bytes : Bytes}
    (h : image.readEachSector framing lsn (count + more) = .ok bytes) :
    (bytes.take (count * sectorSize)).length = count * sectorSize ∧
      image.readEachSector framing lsn count = .ok (bytes.take (count * sectorSize)) := by
  induction count generalizing lsn bytes with
  | zero => rw [Nat.zero_mul, List.take_zero, readEachSector]; exact ⟨rfl, rfl⟩
  | succ count ih =>
    rw [Nat.add_right_comm] at h
    obtain ⟨sector, rest, hsector, hrest, rfl⟩ := readEachSector_succ_eq_ok.mp h
    obtain ⟨hlength, hfewer⟩ := ih hrest
    have hsize := length_of_readSector hsector
    have htake : (sector ++ rest).take ((count + 1) * sectorSize) =
        sector ++ rest.take (count * sectorSize) := by
      rw [Nat.succ_mul, Nat.add_comm, ← hsize, List.take_length_add_append]
    rw [htake, List.length_append, hlength, hsize, Nat.succ_mul, Nat.add_comm]
    exact ⟨rfl, readEachSector_succ_eq_ok.mpr ⟨sector, _, hsector, hfewer, rfl⟩⟩

/-- Where more sectors are read at once, the first are what fewer would be, as long as all are found. -/
theorem Image.readSectors_take {lsn count fewer : UInt32} {bytes : Bytes}
    (hle : fewer.toNat ≤ count.toNat) (h : image.readSectors framing lsn count = .ok bytes) :
    (bytes.take (fewer.toNat * sectorSize)).length = fewer.toNat * sectorSize ∧
      image.readSectors framing lsn fewer = .ok (bytes.take (fewer.toNat * sectorSize)) := by
  obtain ⟨more, hmore⟩ := Nat.exists_eq_add_of_le hle
  cases hoffset : framing.byteOffset? lsn with
  | none =>
    rw [readSectors, sectorOffset, hoffset] at h
    cases h
  | some offset =>
    have hlength : fewer.toNat * sectorSize ≤ count.toNat * sectorSize := Nat.mul_le_mul_right _ hle
    rw [readSectors_eq hoffset] at h ⊢
    split at h
    · cases h
    · next hinside =>
      have hall := Nat.not_lt.mp hinside
      have hfirst := Nat.le_trans (Nat.add_le_add_left hlength offset) hall
      rw [if_neg (Nat.not_lt.mpr hfirst)]
      by_cases hcontiguous : framing.isContiguous = true
      · rw [if_pos hcontiguous] at h ⊢
        have hslice (length : Nat) (hend : offset + length ≤ image.bytes.length) :
            image.readBytes offset length = .ok (image.bytes.slice offset length) := by
          rw [readBytes]
          split
          · next hzero => rw [hzero, Bytes.slice, List.take_zero]
          · rw [if_neg (Nat.not_lt.mpr hend)]
        rw [hslice _ hall] at h
        cases h
        rw [hslice _ hfirst, Bytes.slice, List.take_take, Nat.min_eq_left hlength]
        exact ⟨Bytes.length_slice hfirst, rfl⟩
      · rw [if_neg hcontiguous] at h ⊢
        rw [hmore] at h
        exact readEachSector_add h

/-! ## Extents that follow each other -/

/-- The extents that are not empty, each of them read at once and cut to its size. -/
def Image.readExtents (image : Image) (framing : Framing) : List Extent → Except Error Bytes
  | [] => .ok []
  | x :: rest =>
    if x.size = 0 then image.readExtents framing rest
    else do
      let sectors ← image.readSectors framing x.lsn x.sectorCount
      let others ← image.readExtents framing rest
      return sectors.take x.size.toNat ++ others

variable {x : Extent} {rest extents : List Extent} {bytes : Bytes}

/-- An extent without bytes is passed over, and its place is not even looked up. -/
theorem Image.readExtents_of_empty (h : x.size.toNat = 0) :
    image.readExtents framing (x :: rest) = image.readExtents framing rest :=
  if_pos (UInt32.toNat_inj.mp h)

/-- An extent that is not empty is read first, and then the others; both have to be there. -/
theorem Image.readExtents_cons_eq_ok (h : 0 < x.size.toNat) :
    image.readExtents framing (x :: rest) = .ok bytes ↔
      ∃ sectors others, image.readSectors framing x.lsn x.sectorCount = .ok sectors ∧
        image.readExtents framing rest = .ok others ∧ bytes = sectors.take x.size.toNat ++ others := by
  have hne : x.size ≠ 0 := fun hzero => by
    rw [hzero] at h
    exact absurd h (by decide)
  rw [readExtents, if_neg hne]
  simp only [except_bind_eq_ok_iff, pure, Except.pure, Except.ok.injEq, eq_comm (b := bytes)]
  tauto

/-- Extents that lie in the image are read, each at once, and what comes of it are their bytes. -/
theorem Image.readExtents_of_liesIn (hframe : sectorSize ≤ framing.frameSize.toNat)
    (h : ∀ x ∈ extents, x.LiesIn image framing) :
    image.readExtents framing extents = .ok (extentBytes image framing extents) := by
  induction extents with
  | nil => rfl
  | cons x rest ih =>
    obtain ⟨hx, hrest⟩ := List.forall_mem_cons.mp h
    rw [extentBytes, List.flatMap_cons]
    rcases Nat.eq_zero_or_pos x.size.toNat with hempty | hpos
    · have hnil : x.bytesIn image framing = [] := by rw [Extent.bytesIn, hempty, List.take_zero]
      rw [readExtents_of_empty hempty, hnil]
      exact ih hrest
    · obtain ⟨sectors, hsectors, htake⟩ := Extent.readSectors_eq hx hframe hpos
      exact (readExtents_cons_eq_ok hpos).mpr ⟨sectors, _, hsectors, ih hrest, by rw [htake]; rfl⟩

/-- Where extents can be read at once, what is in front of a cut can, and gives the first of their
bytes. -/
theorem Image.readExtents_cutTo (size : Nat) (h : image.readExtents framing extents = .ok bytes) :
    image.readExtents framing (cutTo size extents) = .ok (bytes.take size) := by
  induction extents generalizing size bytes with
  | nil =>
    cases h
    rw [cutTo, List.take_nil]
    rfl
  | cons x rest ih =>
    have hcut := x.toNat_size_cut size
    rw [cutTo]
    rcases Nat.eq_zero_or_pos x.size.toNat with hempty | hpos
    · rw [readExtents_of_empty hempty] at h
      rw [readExtents_of_empty (by omega), hempty]
      exact ih size h
    · obtain ⟨sectors, others, hsectors, hothers, rfl⟩ := (readExtents_cons_eq_ok hpos).mp h
      have hcount : (x.cut size).sectorCount.toNat ≤ x.sectorCount.toNat := by
        rw [Extent.toNat_sectorCount, Extent.toNat_sectorCount, hcut]
        omega
      obtain ⟨hlength, -⟩ := readSectors_take (Nat.le_refl _) hsectors
      obtain ⟨-, hfewer⟩ := readSectors_take hcount hsectors
      have hfront : (sectors.take x.size.toNat).length = x.size.toNat := by
        have hsize := x.size_le
        rw [List.length_take] at hlength ⊢
        omega
      have hrest := ih (size - x.size.toNat) hothers
      rw [List.take_append, hfront, List.take_take, Nat.min_comm, ← hcut]
      rcases Nat.eq_zero_or_pos size with rfl | hsize
      -- Nothing is in front of the cut.
      · rw [readExtents_of_empty (by omega), hrest, hcut, Nat.min_zero, List.take_zero]
        rfl
      · refine (readExtents_cons_eq_ok (by omega)).mpr ⟨_, _, hfewer, hrest, ?_⟩
        rw [List.take_take, Nat.min_eq_left (x.cut size).size_le]

end Fewer

section Yields

variable {δ : Type} [BlockDevice δ] {image : Image} {framing : Framing}

/-- The extents that are not empty, each of them read at once and cut to its size. -/
def readExtents : List Extent → SourceM δ Bytes
  | [] => return []
  | x :: rest =>
    if x.size = 0 then readExtents rest
    else do
      let sectors ← SectorSource.readSectors x.lsn x.sectorCount
      let others ← readExtents rest
      return sectors.take x.size.toNat ++ others

/-- A source that serves the image reads its extents, or fails as the image does. -/
theorem yields_readExtents (extents : List Extent) :
    SectorSource.Yields image framing (readExtents extents : SourceM δ Bytes)
      (image.readExtents framing extents) := by
  induction extents with
  | nil => exact .pure []
  | cons x rest ih =>
    rw [readExtents, Image.readExtents]
    split
    · exact ih
    · exact (SectorSource.yields_readSectors _ _).bind fun _ => ih.bind fun _ => .pure _

end Yields

end Ecma119
