import Ecma119.Proofs.Source.Serving
import Ecma119.File

/-!
# The bytes of a file

`Entry.bytesIn` is what a file holds: the bytes found at the sectors of its extents, one extent behind the
other and of each as many as its size says. It is told without a reader. `locate_spec` says that a reader
finds every byte of it in the sector where it is recorded.
-/

namespace Ecma119

variable {image : Image} {framing : Framing}

/-! ## Extents -/

namespace Extent

/-- The sectors of the extent have numbers of 32 bits and are found in the image. -/
structure LiesIn (image : Image) (framing : Framing) (x : Extent) : Prop where
  endLsn_le : x.endLsn ≤ 2 ^ 32
  found : ∀ index < x.sectorCount.toNat, ∃ offset ∈ framing.byteOffset? (x.lsn + UInt32.ofNat index),
    offset + sectorSize ≤ image.bytes.length

instance (image : Image) (framing : Framing) (x : Extent) : Decidable (x.LiesIn image framing) :=
  decidable_of_iff (x.endLsn ≤ 2 ^ 32 ∧
      ∀ index < x.sectorCount.toNat, ∃ offset ∈ framing.byteOffset? (x.lsn + UInt32.ofNat index),
        offset + sectorSize ≤ image.bytes.length)
    ⟨fun ⟨hlast, hfound⟩ => ⟨hlast, hfound⟩, fun h => ⟨h.endLsn_le, h.found⟩⟩

/-- A sector of the extent, from where it is found. One that would lie before the image is taken from its
start, which no result makes use of. -/
def sectorIn (image : Image) (framing : Framing) (x : Extent) (index : Nat) : Bytes :=
  image.bytes.slice ((framing.byteOffset? (x.lsn + UInt32.ofNat index)).getD 0) sectorSize

/-- As many bytes as the extent has, from its sectors. -/
def bytesIn (image : Image) (framing : Framing) (x : Extent) : Bytes :=
  (Bytes.joined (x.sectorIn image framing) x.sectorCount.toNat).take x.size.toNat

variable {x : Extent}

/-- Every byte of the extent is in one of its sectors, as their number is rounded up. -/
theorem size_le (x : Extent) : x.size.toNat ≤ x.sectorCount.toNat * sectorSize := by
  rw [toNat_sectorCount]
  dsimp only [sectorSize]
  omega

/-- The sector of every byte is counted, so that each byte of an extent in the image is found. -/
theorem div_lt_sectorCount {position : Nat} (h : position < x.size.toNat) :
    position / sectorSize < x.sectorCount.toNat := by
  rw [Nat.div_lt_iff_lt_mul (by decide)]
  exact Nat.lt_of_lt_of_le h x.size_le

/-- Each sector of an extent that lies in the image is a whole one. -/
theorem length_sectorIn (h : x.LiesIn image framing) {index : Nat}
    (hindex : index < x.sectorCount.toNat) : (x.sectorIn image framing index).length = sectorSize := by
  obtain ⟨offset, hoffset, hend⟩ := h.found index hindex
  rw [sectorIn, Option.mem_def.mp hoffset]
  exact Bytes.length_slice hend

/-- An extent that lies in the image has as many bytes there as its size says. -/
theorem length_bytesIn (h : x.LiesIn image framing) :
    (x.bytesIn image framing).length = x.size.toNat := by
  rw [bytesIn, List.length_take, Bytes.length_joined fun index => length_sectorIn h]
  exact Nat.min_eq_left x.size_le

/-- The numbers of its sectors follow each other, as long as the extent ends at a number of 32 bits. -/
theorem toNat_lsn_add (hlast : x.endLsn ≤ 2 ^ 32) {index : Nat}
    (hindex : index < x.sectorCount.toNat) :
    (x.lsn + UInt32.ofNat index).toNat = x.lsn.toNat + index := by
  rw [endLsn] at hlast
  exact Ecma119.toNat_lsn_add (by omega)

/-- A sector of the extent can be read under its number if the extent lies in the image. -/
theorem readSector_eq (h : x.LiesIn image framing) {index : Nat}
    (hindex : index < x.sectorCount.toNat) :
    image.readSector framing (x.lsn + UInt32.ofNat index) =
      .ok (x.sectorIn image framing index) := by
  obtain ⟨offset, hoffset, hend⟩ := h.found index hindex
  rw [sectorIn, Option.mem_def.mp hoffset]
  exact Image.readSector_eq_ok.mpr ⟨offset, hoffset, hend, rfl⟩

/-- An extent without bytes takes up no sector. -/
theorem sectorCount_of_size_eq_zero (hsize : x.size = 0) : x.sectorCount.toNat = 0 := by
  rw [toNat_sectorCount, hsize]
  rfl

/-- An extent without bytes has no sector that could lie elsewhere, and so lies in every image. -/
theorem liesIn_of_size_eq_zero (hlast : x.endLsn ≤ 2 ^ 32) (hsize : x.size = 0) :
    x.LiesIn image framing := by
  have hcount := sectorCount_of_size_eq_zero hsize
  exact ⟨hlast, fun index hindex => by omega⟩

/-- An extent lies in the image if each of its sectors can be read, wherever they are found. -/
theorem liesIn_of_readSector (hlast : x.endLsn ≤ 2 ^ 32)
    (h : ∀ index < x.sectorCount.toNat, ∃ sector,
      image.readSector framing (x.lsn + UInt32.ofNat index) = .ok sector) :
    x.LiesIn image framing := by
  refine ⟨hlast, fun index hindex => ?_⟩
  obtain ⟨sector, hsector⟩ := h index hindex
  obtain ⟨offset, hoffset, hend, -⟩ := Image.readSector_eq_ok.mp hsector
  exact ⟨offset, hoffset, hend⟩

/-- What lies within one sector is a part of that sector, at the position within it. -/
theorem slice_bytesIn (h : x.LiesIn image framing) {position count : Nat}
    (hposition : position < x.size.toNat) (hsize : position + count ≤ x.size.toNat)
    (hsector : position % sectorSize + count ≤ sectorSize) :
    (x.bytesIn image framing).slice position count =
      (x.sectorIn image framing (position / sectorSize)).slice (position % sectorSize) count := by
  have hindex := div_lt_sectorCount hposition
  have hfront : x.bytesIn image framing =
      (Bytes.joined (x.sectorIn image framing) x.sectorCount.toNat).slice 0 x.size.toNat := rfl
  rw [hfront, Bytes.slice_slice _ hsize, Nat.zero_add,
    ← Bytes.slice_joined (fun index => length_sectorIn h) hindex hsector, Nat.div_add_mod']

/-! ### Extents that a source does not find -/

/-- The extent lies wholly in the image, whether a source finds it there or not. -/
structure IsPlacedIn (image : Image) (framing : Framing) (x : Extent) : Prop where
  endLsn_le : x.endLsn ≤ 2 ^ 32
  nonneg : ∀ index < x.sectorCount.toNat, 0 ≤ framing.place (x.lsn + UInt32.ofNat index)
  add_le_length : ∀ index < x.sectorCount.toNat,
    framing.place (x.lsn + UInt32.ofNat index) + sectorSize ≤ image.bytes.length

/-- No sector of the extent lies too far on for its offset to be worked out. -/
def IsReached (framing : Framing) (x : Extent) : Prop :=
  ∀ index < x.sectorCount.toNat, framing.place (x.lsn + UInt32.ofNat index) < 2 ^ 63

instance (framing : Framing) (x : Extent) : Decidable (x.IsReached framing) :=
  inferInstanceAs (Decidable (∀ index < x.sectorCount.toNat, _ < _))

/-- As many bytes as the extent has, from where its sectors lie. -/
def bytesPlacedIn (image : Image) (framing : Framing) (x : Extent) : Bytes :=
  (Bytes.joined (fun index => image.bytes.slice
    (framing.place (x.lsn + UInt32.ofNat index)).toNat sectorSize) x.sectorCount.toNat).take
      x.size.toNat

/-- A sector that lies in the image and can be reached is found there, as its offset is below `2 ^ 63`.
-/
theorem IsPlacedIn.byteOffset?_eq (h : x.IsPlacedIn image framing) {index : Nat}
    (hindex : index < x.sectorCount.toNat)
    (hreach : framing.place (x.lsn + UInt32.ofNat index) < 2 ^ 63) :
    framing.byteOffset? (x.lsn + UInt32.ofNat index) =
      some (framing.place (x.lsn + UInt32.ofNat index)).toNat :=
  (Framing.byteOffset?_eq_some_of_lt hreach).mpr (Int.toNat_of_nonneg (h.nonneg index hindex)).symm

/-- What can be reached is found where it lies, and nowhere else, so that both notions are one for it. -/
theorem IsReached.liesIn_iff (h : x.IsReached framing) :
    x.LiesIn image framing ↔ x.IsPlacedIn image framing := by
  constructor
  · intro hlies
    have hplace (index : Nat) (hindex : index < x.sectorCount.toNat) :
        ∃ offset : Nat, framing.place (x.lsn + UInt32.ofNat index) = offset ∧
          offset + sectorSize ≤ image.bytes.length := by
      obtain ⟨offset, hoffset, hend⟩ := hlies.found index hindex
      exact ⟨offset, (Framing.byteOffset?_eq_some_of_lt (h index hindex)).mp hoffset, hend⟩
    refine ⟨hlies.endLsn_le, fun index hindex => ?_, fun index hindex => ?_⟩
    · obtain ⟨offset, hoffset, -⟩ := hplace index hindex
      rw [hoffset]
      exact Int.natCast_nonneg offset
    · obtain ⟨offset, hoffset, hend⟩ := hplace index hindex
      rw [hoffset]
      exact Int.ofNat_le.mpr hend
  · intro hplaced
    refine ⟨hplaced.endLsn_le, fun index hindex => ?_⟩
    refine ⟨_, hplaced.byteOffset?_eq hindex (h index hindex), ?_⟩
    have hnonneg := hplaced.nonneg index hindex
    have hend := hplaced.add_le_length index hindex
    omega

/-- Of an extent that lies in an image that can be counted, every sector is found only if every one can
be reached: where it lies too far on, it is taken for one before the start. -/
theorem IsPlacedIn.liesIn_iff (h : x.IsPlacedIn image framing)
    (hlength : image.bytes.length < 2 ^ 64) : x.LiesIn image framing ↔ x.IsReached framing := by
  refine ⟨fun hlies index hindex => ?_, fun hreach => hreach.liesIn_iff.mpr h⟩
  refine Int.lt_of_not_ge fun hfar => ?_
  have hend := h.add_le_length index hindex
  obtain ⟨offset, hoffset, -⟩ := hlies.found index hindex
  rw [Framing.byteOffset?_eq_none hfar (by omega)] at hoffset
  cases hoffset

/-- Where the extent is found as it lies, its bytes are those there, sector by sector. -/
theorem IsPlacedIn.bytesIn_eq (h : x.IsPlacedIn image framing) (hreach : x.IsReached framing) :
    x.bytesIn image framing = x.bytesPlacedIn image framing := by
  rw [bytesIn, bytesPlacedIn, Bytes.joined_congr fun index hindex => ?_]
  rw [sectorIn, h.byteOffset?_eq hindex (hreach index hindex)]
  rfl

end Extent

/-! ## Files -/

/-- The bytes of extents that follow each other. -/
def extentBytes (image : Image) (framing : Framing) (extents : List Extent) : Bytes :=
  extents.flatMap (Extent.bytesIn image framing)

/-- The bytes where extents that follow each other lie. -/
def placedBytes (image : Image) (framing : Framing) (extents : List Extent) : Bytes :=
  extents.flatMap (Extent.bytesPlacedIn image framing)

/-- Extents that can be reached are found with the bytes that are there, in their order. -/
theorem extentBytes_eq_placedBytes {extents : List Extent}
    (h : ∀ x ∈ extents, x.IsPlacedIn image framing)
    (hreach : ∀ x ∈ extents, x.IsReached framing) :
    extentBytes image framing extents = placedBytes image framing extents :=
  List.flatMap_congr fun x hx => (h x hx).bytesIn_eq (hreach x hx)

def Entry.bytesIn (image : Image) (framing : Framing) (file : Entry) : Bytes :=
  extentBytes image framing file.extents

/-- Behind the last byte there is no place, and where there is no place there is no byte. -/
theorem length_le_of_locate_eq_none {extents : List Extent}
    (h : ∀ x ∈ extents, x.LiesIn image framing) {position : Nat}
    (hplace : locate extents position = none) :
    (extentBytes image framing extents).length ≤ position := by
  induction extents generalizing position with
  | nil => exact Nat.zero_le _
  | cons x rest ih =>
    rw [locate] at hplace
    split at hplace
    · cases hplace
    · have hrest := ih (fun y hy => h y (List.mem_cons_of_mem _ hy)) hplace
      rw [extentBytes, List.flatMap_cons, List.length_append,
        Extent.length_bytesIn (h x List.mem_cons_self), ← extentBytes]
      omega

/-- The place of a byte is where it and those available behind it are recorded: they are a part of that
sector. -/
theorem locate_spec {extents : List Extent} (h : ∀ x ∈ extents, x.LiesIn image framing)
    {position : Nat} {place : FilePlace} (hplace : locate extents position = some place) :
    position + place.available ≤ (extentBytes image framing extents).length ∧
      ∃ sector, image.readSector framing place.lsn = .ok sector ∧
        ∀ count ≤ place.available, (extentBytes image framing extents).slice position count =
          sector.slice place.inSector count := by
  induction extents generalizing position with
  | nil => cases hplace
  | cons x rest ih =>
    have hx := h x List.mem_cons_self
    have hlength := Extent.length_bytesIn hx
    rw [locate] at hplace
    rw [extentBytes, List.flatMap_cons, List.length_append, ← extentBytes]
    split at hplace
    -- The byte is in this extent, and so are those that are available behind it.
    · next hinside =>
      cases hplace
      refine ⟨by dsimp only; omega, _,
        Extent.readSector_eq hx (Extent.div_lt_sectorCount hinside), fun count hcount => ?_⟩
      dsimp only at hcount ⊢
      have hinSector := Nat.mod_lt position (y := sectorSize) (by decide)
      rw [Bytes.slice_append_left (by omega)]
      exact Extent.slice_bytesIn hx hinside (by omega) (by omega)
    -- It is in a later one, counted from the end of this.
    · next hpast =>
      obtain ⟨hend, sector, hsector, hslice⟩ :=
        ih (fun y hy => h y (List.mem_cons_of_mem _ hy)) hplace
      refine ⟨by omega, sector, hsector, fun count hcount => ?_⟩
      rw [← hslice count hcount]
      have hposition : position =
          (x.bytesIn image framing).length + (position - x.size.toNat) := by omega
      rw [hposition, Bytes.slice_append_right, hlength, Nat.add_sub_cancel_left]

/-- Extents lie in the image if every byte has its place in a sector that can be read. -/
theorem liesIn_of_locate {extents : List Extent} (hlast : ∀ x ∈ extents, x.endLsn ≤ 2 ^ 32)
    (h : ∀ position place, locate extents position = some place →
      ∃ sector, image.readSector framing place.lsn = .ok sector) :
    ∀ x ∈ extents, x.LiesIn image framing := by
  induction extents with
  | nil => exact fun x hx => nomatch hx
  | cons x rest ih =>
    refine List.forall_mem_cons.mpr ⟨?_, ih (fun y hy => hlast y (List.mem_cons_of_mem _ hy)) ?_⟩
    · refine Extent.liesIn_of_readSector (hlast x List.mem_cons_self) fun index hindex => ?_
      rw [Extent.toNat_sectorCount] at hindex
      have hinside : index * sectorSize < x.size.toNat := by
        dsimp only [sectorSize]
        omega
      obtain ⟨sector, hsector⟩ := h _ _ (dif_pos hinside)
      rw [Nat.mul_div_cancel _ (by decide)] at hsector
      exact ⟨sector, hsector⟩
    · intro position place hplace
      refine h (x.size.toNat + position) place ?_
      rw [locate, dif_neg (by omega), Nat.add_sub_cancel_left, hplace]

/-- Only extents that are not empty could lie elsewhere; an empty one has no sector that could be
missing. -/
theorem forall_liesIn_iff {extents : List Extent} (hlast : ∀ x ∈ extents, x.endLsn ≤ 2 ^ 32) :
    (∀ x ∈ extents, x.LiesIn image framing) ↔
      ∀ x ∈ extents, x.size ≠ 0 → x.LiesIn image framing := by
  refine ⟨fun h x hx _ => h x hx, fun h x hx => ?_⟩
  by_cases hempty : x.size = 0
  · exact Extent.liesIn_of_size_eq_zero (hlast x hx) hempty
  · exact h x hx hempty

/-- The bytes that are wanted from a position on are those that its sector has, and then the others. -/
theorem slice_of_locate {extents : List Extent} (h : ∀ x ∈ extents, x.LiesIn image framing)
    {position : Nat} {place : FilePlace} (hplace : locate extents position = some place) :
    ∃ sector, image.readSector framing place.lsn = .ok sector ∧ ∀ want,
      let count := min place.available want
      (sector.slice place.inSector count).length = count ∧
        (extentBytes image framing extents).slice position want =
          sector.slice place.inSector count ++
            (extentBytes image framing extents).slice (position + count) (want - count) := by
  obtain ⟨hend, sector, hsector, hslice⟩ := locate_spec h hplace
  refine ⟨sector, hsector, fun want => ?_⟩
  have havailable := Nat.min_le_left place.available want
  dsimp only
  rw [← hslice _ havailable, ← Bytes.slice_add, Nat.add_sub_cancel' (Nat.min_le_right _ _)]
  exact ⟨Bytes.length_slice (by omega), rfl⟩

end Ecma119
