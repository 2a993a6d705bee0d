import Ecma119.Bytes
import Mathlib.Algebra.GroupWithZero.Nat
import Mathlib.Data.List.Basic

/-!
# Parts of byte strings

`Bytes.slice` gives as many of the bytes asked for as there are. These are its rules for parts of parts,
for strings in which a part has been written over, and for strings that are put together from pieces of
one length.
-/

namespace Ecma119.Bytes

/-- A part of a part is a part of the whole, at the sum of the offsets, as long as it does not run out of
the first. -/
theorem slice_slice (data : Bytes) {offset len inner count : Nat} (h : inner + count ≤ len) :
    (data.slice offset len).slice inner count = data.slice (offset + inner) count := by
  simp only [slice, List.drop_take, List.take_take, List.drop_drop]
  rw [Nat.min_eq_left (by omega)]

/-- A part is its beginning and the rest of it. This cuts a read of several sectors into one and the
others. -/
theorem slice_add (data : Bytes) (offset m n : Nat) :
    data.slice offset (m + n) = data.slice offset m ++ data.slice (offset + m) n := by
  rw [slice, List.take_add, List.drop_drop]
  rfl

/-- A slice that lies in the data is as long as was asked for; otherwise see `length_slice_eq_min`. -/
theorem length_slice {data : Bytes} {offset len : Nat} (h : offset + len ≤ data.length) :
    (data.slice offset len).length = len := by
  simp only [slice, List.length_take, List.length_drop]
  omega

/-- A slice has as many bytes as are asked for, or as there are from its offset on if that is less. -/
theorem length_slice_eq_min (data : Bytes) (offset len : Nat) :
    (data.slice offset len).length = min len (data.length - offset) := by
  rw [slice, List.length_take, List.length_drop]

/-- There is nothing to be had from the end of the data on. -/
theorem slice_eq_nil {data : Bytes} {offset len : Nat} (h : data.length ≤ offset) :
    data.slice offset len = [] := by
  rw [slice, List.drop_of_length_le h, List.take_nil]

/-- Asking for more than there is gives what there is, so that a length can always be taken to fit. -/
theorem slice_eq_slice_min (data : Bytes) (offset len : Nat) :
    data.slice offset len = data.slice offset (min len (data.length - offset)) := by
  rw [slice, slice, ← List.length_drop, List.take_eq_take_min]

/-- A part of the front is there in the whole: cutting off what is behind it does not matter. -/
theorem slice_take {data : Bytes} {offset len n : Nat} (h : offset + len ≤ n) :
    slice (data.take n) offset len = data.slice offset len := by
  have hfront : data.take n = data.slice 0 n := rfl
  rw [hfront, slice_slice data h, Nat.zero_add]

/-- A part of equal bytes is as many of them as were asked for, if there are so many. -/
theorem slice_replicate {n offset len : Nat} (byte : UInt8) (h : offset + len ≤ n) :
    slice (List.replicate n byte) offset len = List.replicate len byte := by
  rw [slice, List.drop_replicate, List.take_replicate, Nat.min_eq_left (by omega)]

/-- What is appended does not show in a slice that lies in the bytes before it. -/
theorem slice_append_left {data rest : Bytes} {offset len : Nat}
    (h : offset + len ≤ data.length) : (data ++ rest).slice offset len = data.slice offset len := by
  rw [slice, slice, List.drop_append_of_le_length (by omega),
    List.take_append_of_le_length (by rw [List.length_drop]; omega)]

/-- A slice behind the first bytes is one of those that were appended, at an offset less their length. -/
theorem slice_append_right (data rest : Bytes) (offset len : Nat) :
    (data ++ rest).slice (data.length + offset) len = rest.slice offset len := by
  rw [slice, slice, List.drop_append, List.drop_of_length_le (Nat.le_add_right _ _),
    List.nil_append, Nat.add_sub_cancel_left]

/-- Bytes of the right number need neither be cut nor filled up, so that `fit` gives them as they are. -/
theorem fit_of_length {n : Nat} {bytes : Bytes} (fill : UInt8) (h : bytes.length = n) :
    fit n fill bytes = bytes := by
  simp [fit, ← h]

/-- Bytes that are zero at every index are zeros, which is how padding is seen to hold nothing. -/
theorem eq_zeros {data : Bytes} (h : ∀ index < data.length, data[index]? = some 0) :
    data = zeros data.length := by
  refine List.eq_replicate_iff.mpr ⟨rfl, fun b hb => ?_⟩
  obtain ⟨index, hindex, rfl⟩ := List.mem_iff_getElem.mp hb
  have hzero := h index hindex
  rw [List.getElem?_eq_getElem hindex] at hzero
  exact Option.some.inj hzero

/-! ## Writing over a part -/

section Put

variable {data bytes : Bytes} {offset start len index : Nat}

/-- Bytes that are written lie at their place, and are had back with a slice of their length. -/
theorem slice_put_self (h : offset ≤ data.length) (hlength : bytes.length = len) :
    (data.put offset bytes).slice offset len = bytes := by
  have hfront : (data.take offset).length = offset := List.length_take_of_le h
  rw [put, slice, List.append_assoc, List.drop_left' hfront, List.take_left' hlength]

/-- Writing changes no byte elsewhere, be it before the bytes that are written or behind them. -/
theorem getElem?_put_of_apart (h : offset + bytes.length ≤ data.length)
    (hapart : index < offset ∨ offset + bytes.length ≤ index) :
    (data.put offset bytes)[index]? = data[index]? := by
  have hfront : (data.take offset).length = offset := List.length_take_of_le (by omega)
  rw [put, List.append_assoc]
  rcases hapart with hbefore | hbehind
  · rw [List.getElem?_append_left (by omega), List.getElem?_take_of_lt hbefore]
  · rw [List.getElem?_append_right (by omega), List.getElem?_append_right (by omega), hfront,
      List.getElem?_drop]
    congr 1
    omega

/-- Putting bytes somewhere leaves every slice alone that lies wholly before or wholly behind them. -/
theorem slice_put_of_apart (h : offset + bytes.length ≤ data.length)
    (hapart : start + len ≤ offset ∨ offset + bytes.length ≤ start) :
    (data.put offset bytes).slice start len = data.slice start len := by
  apply List.ext_getElem?
  intro index
  rw [slice, slice, List.getElem?_take, List.getElem?_take, List.getElem?_drop, List.getElem?_drop]
  split
  · exact getElem?_put_of_apart h (by omega)
  · rfl

/-- The data with zeros in these areas, each of them given by its offset and its length. -/
def zeroed (areas : List (Nat × Nat)) (data : Bytes) : Bytes :=
  areas.foldr (fun area data => put data area.1 (zeros area.2)) data

/-- Neither of two areas has bytes of the other: one of them ends where the other starts, or before. -/
def Apart (area area' : Nat × Nat) : Prop :=
  area.1 + area.2 ≤ area'.1 ∨ area'.1 + area'.2 ≤ area.1

instance (area area' : Nat × Nat) : Decidable (Apart area area') :=
  inferInstanceAs (Decidable (_ ∨ _))

variable {areas : List (Nat × Nat)}

/-- Clearing areas that lie in the data keeps its length. -/
theorem length_zeroed (h : ∀ area ∈ areas, area.1 + area.2 ≤ data.length) :
    (zeroed areas data).length = data.length := by
  induction areas with
  | nil => rfl
  | cons area areas ih =>
    obtain ⟨harea, hareas⟩ := List.forall_mem_cons.mp h
    rw [← ih hareas] at harea ⊢
    exact length_put (by rwa [length_zeros])

/-- The bytes elsewhere are as they were: clearing areas changes no slice that is apart from all of them.
-/
theorem slice_zeroed_of_apart (h : ∀ area ∈ areas, area.1 + area.2 ≤ data.length)
    (hapart : ∀ area ∈ areas, Apart area (offset, len)) :
    (zeroed areas data).slice offset len = data.slice offset len := by
  induction areas with
  | nil => rfl
  | cons area areas ih =>
    obtain ⟨harea, hareas⟩ := List.forall_mem_cons.mp h
    obtain ⟨hfirst, hrest⟩ := List.forall_mem_cons.mp hapart
    rw [← length_zeroed hareas] at harea
    rw [← ih hareas hrest]
    exact slice_put_of_apart (by rwa [length_zeros]) (by rw [length_zeros]; exact hfirst.symm)

/-- There are zeros in each of the areas, as those that are cleared later do not overlap it. -/
theorem slice_zeroed (h : ∀ area ∈ areas, area.1 + area.2 ≤ data.length)
    (hapart : areas.Pairwise Apart) (hmem : (offset, len) ∈ areas) :
    (zeroed areas data).slice offset len = zeros len := by
  induction areas with
  | nil => cases hmem
  | cons area areas ih =>
    obtain ⟨harea, hareas⟩ := List.forall_mem_cons.mp h
    obtain ⟨hfirst, hpairs⟩ := List.pairwise_cons.mp hapart
    rw [← length_zeroed hareas] at harea
    rcases List.mem_cons.mp hmem with rfl | hmem
    · have hbefore : offset ≤ (zeroed areas data).length := by omega
      exact slice_put_self hbefore (length_zeros len)
    · rw [← ih hareas hpairs hmem]
      exact slice_put_of_apart (by rwa [length_zeros])
        (by rw [length_zeros]; exact (hfirst _ hmem).symm)

end Put

/-! ## Pieces of one length -/

section Pieces

variable {piece : Nat → Bytes} {size : Nat}

/-- The first `count` pieces. -/
def joined (piece : Nat → Bytes) (count : Nat) : Bytes := (List.range count).flatMap piece

theorem joined_succ (count : Nat) : joined piece (count + 1) = joined piece count ++ piece count := by
  simp [joined, List.range_succ]

/-- Pieces stand one behind the other from the first on, which is how reading them one by one finds them.
-/
theorem joined_succ_front (piece : Nat → Bytes) (count : Nat) :
    joined piece (count + 1) = piece 0 ++ joined (fun index => piece (index + 1)) count := by
  simp only [joined, List.range_succ_eq_map, List.flatMap_cons, List.flatMap_map]

def pieceThen (first : Bytes) (later : Nat → Bytes) : Nat → Bytes
  | 0 => first
  | index + 1 => later index

/-- Joined pieces of which the first is set apart are that one and then all the others. -/
theorem joined_pieceThen (first : Bytes) (later : Nat → Bytes) (count : Nat) :
    joined (pieceThen first later) (count + 1) = first ++ joined later count :=
  joined_succ_front ..

/-- Only the pieces that are joined matter, not what the function gives behind them. -/
theorem joined_congr {piece' : Nat → Bytes} {count : Nat} (h : ∀ i < count, piece i = piece' i) :
    joined piece count = joined piece' count :=
  List.flatMap_congr fun i hi => h i (List.mem_range.mp hi)

/-- A part is put together from pieces of it, each of `size` bytes and one behind the other. -/
theorem slice_eq_joined (data : Bytes) (offset count size : Nat) :
    data.slice offset (count * size) = joined (fun i => data.slice (offset + i * size) size) count := by
  induction count with
  | zero => rw [Nat.zero_mul, slice, List.take_zero]; rfl
  | succ count ih => rw [joined_succ, Nat.succ_mul, slice_add, ih]

/-- Pieces of one size make up a whole number of them. -/
theorem length_joined {count : Nat} (h : ∀ i < count, (piece i).length = size) :
    (joined piece count).length = count * size := by
  induction count with
  | zero => rw [Nat.zero_mul]; rfl
  | succ count ih =>
    rw [joined_succ, List.length_append, ih fun i hi => h i (by omega), h count (by omega),
      Nat.succ_mul]

/-- What lies within one piece is a part of that, as all pieces before it have the same size. -/
theorem slice_joined {count index offset len : Nat} (h : ∀ i < count, (piece i).length = size)
    (hindex : index < count) (hend : offset + len ≤ size) :
    (joined piece count).slice (index * size + offset) len = (piece index).slice offset len := by
  induction count with
  | zero => omega
  | succ count ih =>
    have hlength : (joined piece count).length = count * size :=
      length_joined fun i hi => h i (by omega)
    rw [joined_succ]
    by_cases hlast : index = count
    · rw [hlast, ← hlength, slice_append_right]
    · have hbefore : (index + 1) * size ≤ count * size := Nat.mul_le_mul_right _ (by omega)
      rw [Nat.succ_mul] at hbefore
      rw [slice_append_left (by omega)]
      exact ih (fun i hi => h i (by omega)) (by omega)

end Pieces

end Ecma119.Bytes
