import Ecma119.Proofs.File.Delivery
import Ecma119.Proofs.File.Stored

/-!
# The part of a file that is read

A file whose size is less than its extents hold is read up to that size. `cutTo` takes what lies
behind it off the extents, which leaves the first of their bytes. No reading of the file can tell: the
places of the bytes that are wanted stay where they are, so the same sectors are asked for, on any
device.
-/

namespace Ecma119

/-! ## Extents that are cut -/

/-- The number of bytes in extents that follow each other, which may differ from the size of the file. -/
def totalSize (extents : List Extent) : Nat := (extents.map fun x => x.size.toNat).sum

/-- The extent without what lies behind its first `size` bytes. -/
def Extent.cut (size : Nat) (x : Extent) : Extent :=
  { x with size := UInt32.ofNat (min x.size.toNat size) }

/-- The extents without what lies behind their first `size` bytes. -/
def cutTo : (size : Nat) → List Extent → List Extent
  | _, [] => []
  | size, x :: rest => x.cut size :: cutTo (size - x.size.toNat) rest

variable {x : Extent} {extents : List Extent} {size position : Nat}

@[simp] theorem totalSize_cons (x : Extent) (rest : List Extent) :
    totalSize (x :: rest) = x.size.toNat + totalSize rest := by
  simp [totalSize]

/-- A cut extent has as many bytes as it had, but no more than it is cut to. -/
@[simp] theorem Extent.toNat_size_cut (size : Nat) (x : Extent) :
    (x.cut size).size.toNat = min x.size.toNat size := by
  have hsize := x.size.toNat_lt
  simp only [Extent.cut, UInt32.toNat_ofNat']
  omega

/-- An extent that is no longer than that stays as it is, in its place and in its size. -/
theorem Extent.cut_of_le (h : x.size.toNat ≤ size) : x.cut size = x := by
  rw [Extent.cut, Nat.min_eq_left h, UInt32.ofNat_toNat]

/-- Cutting adds no sectors, so that a cut extent lies in an image wherever the whole one does. -/
theorem Extent.endLsn_cut_le (size : Nat) (x : Extent) : (x.cut size).endLsn ≤ x.endLsn := by
  rw [endLsn, endLsn, toNat_sectorCount, toNat_sectorCount, toNat_size_cut]
  dsimp only [Extent.cut]
  omega

/-- Extents that are cut to a size have that size in all, or their own where that is less. -/
theorem totalSize_cutTo (size : Nat) (extents : List Extent) :
    totalSize (cutTo size extents) = min size (totalSize extents) := by
  induction extents generalizing size with
  | nil => simp [cutTo, totalSize]
  | cons x rest ih =>
    rw [cutTo, totalSize_cons, totalSize_cons, ih, Extent.toNat_size_cut]
    omega

/-- Extents that hold no more than that stay as they are, empty ones included. -/
theorem cutTo_of_totalSize_le (h : totalSize extents ≤ size) : cutTo size extents = extents := by
  induction extents generalizing size with
  | nil => rfl
  | cons x rest ih =>
    rw [totalSize_cons] at h
    rw [cutTo, Extent.cut_of_le (by omega), ih (by omega)]

/-- Extents that are cut end no later than they did, and so still have numbers of 32 bits. -/
theorem endLsn_le_of_cutTo {bound : Nat} (h : ∀ x ∈ extents, x.endLsn ≤ bound) :
    ∀ x ∈ cutTo size extents, x.endLsn ≤ bound := by
  induction extents generalizing size with
  | nil => exact h
  | cons x rest ih =>
    intro y hy
    rw [cutTo, List.mem_cons] at hy
    rcases hy with rfl | hy
    · exact Nat.le_trans (x.endLsn_cut_le size) (h x List.mem_cons_self)
    · exact ih (fun z hz => h z (List.mem_cons_of_mem _ hz)) y hy

/-! ## Bytes -/

section Bytes

variable {image : Image} {framing : Framing}

/-- The bytes of extents are as many as the extents say, as long as all of them lie in the image. -/
theorem length_extentBytes (h : ∀ x ∈ extents, x.LiesIn image framing) :
    (extentBytes image framing extents).length = totalSize extents := by
  induction extents with
  | nil => rfl
  | cons x rest ih =>
    obtain ⟨hx, hrest⟩ := List.forall_mem_cons.mp h
    rw [totalSize_cons, ← ih hrest, ← Extent.length_bytesIn hx, extentBytes, List.flatMap_cons,
      List.length_append]
    rfl

end Bytes

/-! ## Places -/

/-- A byte has a place exactly if its position is less than the size of all extents. -/
theorem locate_eq_none_iff : locate extents position = none ↔ totalSize extents ≤ position := by
  induction extents generalizing position with
  | nil => simp [locate, totalSize]
  | cons x rest ih =>
    rw [locate, totalSize_cons]
    split
    · next hinside => simp; omega
    · next hpast =>
      rw [ih]
      omega

/-- A byte that has no place has none with the cut, as cutting only takes places away. -/
theorem locate_cutTo_eq_none (size : Nat) (h : locate extents position = none) :
    locate (cutTo size extents) position = none := by
  rw [locate_eq_none_iff] at h ⊢
  rw [totalSize_cutTo]
  exact Nat.le_trans (Nat.min_le_right _ _) h

/-- A byte in front of the cut stays at its place, with less available if the cut is near. -/
theorem locate_cutTo {place : FilePlace} (hlt : position < size)
    (h : locate extents position = some place) :
    ∃ place' : FilePlace, locate (cutTo size extents) position = some place' ∧
      place'.lsn = place.lsn ∧ place'.inSector = place.inSector ∧
      place'.available = min place.available (size - position) := by
  induction extents generalizing position size with
  | nil => cases h
  | cons x rest ih =>
    have hcut := x.toNat_size_cut size
    rw [locate] at h
    rw [cutTo, locate]
    split at h
    · next hinside =>
      cases h
      rw [dif_pos (by omega)]
      exact ⟨_, rfl, rfl, rfl, by dsimp only; omega⟩
    · next hpast =>
      have hsame : (x.cut size).size.toNat = x.size.toNat := by omega
      have hbehind : position - x.size.toNat < size - x.size.toNat := by omega
      rw [dif_neg (by omega), hsame]
      obtain ⟨place', hplace', hlsn, hinSector, havailable⟩ := ih hbehind h
      exact ⟨place', hplace', hlsn, hinSector, by omega⟩

/-! ## Readings -/

namespace FileReader

variable {δ : Type} [BlockDevice δ] {s s' : SectorSource δ}

/-- The reader of what is in front of the cut. -/
def cutTo (size : Nat) (r : FileReader) : FileReader :=
  { r with extents := Ecma119.cutTo size r.extents }

/-- The extents have nothing to do with loading a sector, so that a cut file loads as the whole one does.
-/
theorem load_cutTo {r r' : FileReader} {lsn : UInt32} {outcome : Except Error Unit}
    (h : (r.load lsn).run s = ((outcome, r'), s')) (size : Nat) :
    ((r.cutTo size).load lsn).run s = ((outcome, r'.cutTo size), s') := by
  by_cases hcached : r.cached = some lsn
  · rw [load_cached hcached] at h
    cases h
    exact load_cached hcached
  · have hcached' : ¬ (r.cutTo size).cached = some lsn := hcached
    rw [load, if_neg hcached] at h
    rw [load, if_neg hcached']
    cases hfill : (SectorSource.fillSector lsn r.sector).run s with
    | mk fill s₁ =>
      obtain ⟨filled, sector⟩ := fill
      have hfill' : (SectorSource.fillSector lsn (r.cutTo size).sector).run s = _ := hfill
      rw [run_stateBind hfill] at h
      rw [run_stateBind hfill']
      cases filled <;> (cases h; rfl)

/-- A delivery that ends in front of the cut is the same with it, by induction on what is wanted. -/
theorem deliver_cutTo {r : FileReader} {want : Nat} {d : Delivery}
    (hwant : r.position + want ≤ size) (h : (r.deliver want).run s = (d, s')) :
    ((r.cutTo size).deliver want).run s = ({ d with reader := d.reader.cutTo size }, s') := by
  induction want using Nat.strongRecOn generalizing r s s' d with
  | ind want ih =>
    by_cases hzero : want = 0
    · subst hzero
      rw [deliver_zero] at h ⊢
      cases h
      rfl
    cases hplace : locate r.extents r.position with
    | none =>
      rw [deliver_end hplace] at h
      cases h
      exact deliver_end (locate_cutTo_eq_none size hplace)
    | some place =>
      have hfront : r.position < size := by omega
      obtain ⟨place', hplace', hlsn, hinSector, havailable⟩ := locate_cutTo hfront hplace
      have hpos := place.available_pos
      -- As much is taken from the sector, since no more than what is in front of the cut is wanted.
      have htake : min place'.available want = min place.available want := by omega
      cases hload : (r.load place.lsn).run s with
      | mk result s₁ =>
        obtain ⟨outcome, r₁⟩ := result
        have hload' := load_cutTo hload size
        rw [← hlsn] at hload'
        cases outcome with
        | error failure =>
          rw [deliver_failure hzero hplace hload] at h
          rw [deliver_failure hzero hplace' hload']
          cases h
          rfl
        | ok =>
          obtain ⟨-, hposition, -⟩ := load_ok hload
          cases hlater : ((r₁.seek (r₁.position + min place.available want)).deliver
              (want - min place.available want)).run s₁ with
          | mk later s₂ =>
            have hlater' := ih (want - min place.available want) (by omega)
              (r := r₁.seek (r₁.position + min place.available want))
              (by rw [seek_position]; omega) hlater
            rw [← htake] at hlater'
            rw [deliver_place hzero hplace hload hlater] at h
            rw [deliver_place hzero hplace' hload' hlater', htake, hinSector]
            cases h
            rfl

end FileReader

namespace Entry

variable {δ : Type} [BlockDevice δ] {s s' : SectorSource δ} {buffer : Bytes}

/-- The file without what its extents hold behind its size. -/
def cut (file : Entry) : Entry := { file with extents := cutTo file.size file.extents }

/-- A buffer that is too short is not read into, and nothing is read: the failure tells both sizes. -/
theorem readInto_of_lt (file : Entry) (h : buffer.length < file.size) :
    (file.readInto buffer).run s =
      ((.error (.format (.fieldOverflow file.size buffer.length)), buffer), s) := by
  rw [readInto, if_pos h]
  rfl

/-- What reading into a buffer comes to, by what is delivered: the file is there whole, or the reading
fails. -/
theorem readInto_of_deliver (file : Entry) {d : Delivery} (hfits : file.size ≤ buffer.length)
    (h : ((FileReader.ofEntry file).deliver file.size).run s = (d, s')) :
    (file.readInto buffer).run s =
      ((match d.failure with
        | some failure => .error failure
        | none =>
          if d.bytes.length = file.size then .ok file.size
          else .error (.format .truncatedRecord),
        Bytes.put (buffer.take file.size) 0 d.bytes ++ buffer.drop file.size), s') := by
  have hlength : (buffer.take file.size).length = file.size := List.length_take_of_le hfits
  have hread : ((FileReader.ofEntry file).read (buffer.take file.size)).run s =
      ((match d.failure with
        | some failure => .error failure
        | none => .ok d.bytes.length,
        Bytes.put (buffer.take file.size) 0 d.bytes, d.reader), s') := by
    rw [FileReader.read, hlength, run_stateBind h]
    rfl
  rw [readInto, if_neg (Nat.not_lt.mpr hfits), run_stateBind hread]
  cases d.failure with
  | some failure => rfl
  | none =>
    dsimp only
    split
    · next hwhole =>
      rw [hwhole]
      rfl
    · rfl

/-- Nothing behind the size of a file is read, and it makes no difference on any device. -/
theorem readInto_cut (file : Entry) (buffer : Bytes) (s : SectorSource δ) :
    (file.cut.readInto buffer).run s = (file.readInto buffer).run s := by
  by_cases hshort : buffer.length < file.size
  · rw [readInto_of_lt file hshort, readInto_of_lt file.cut hshort]
    rfl
  · have hfits : file.size ≤ buffer.length := Nat.not_lt.mp hshort
    cases hdeliver : ((FileReader.ofEntry file).deliver file.size).run s with
    | mk d s' =>
      have hcut : ((FileReader.ofEntry file.cut).deliver file.cut.size).run s =
          ({ d with reader := d.reader.cutTo file.size }, s') :=
        FileReader.deliver_cutTo (Nat.le_of_eq (Nat.zero_add _)) hdeliver
      rw [readInto_of_deliver file hfits hdeliver, readInto_of_deliver file.cut hfits hcut]
      rfl

end Entry

end Ecma119
