import Ecma119.Proofs.Source.Serving
import Ecma119.Volume.Search

/-!
# Sightings

A sighting is a place at which the bytes of an image look like the start of a primary descriptor,
together with the window in which a search comes upon it. `Sighting.Valid` says what makes one, without
a search; `Sighting.key` says which of two the search comes upon first. `sightings` lists them all in
that order. `exists_sighting` is why windows overlap: no start within their range is lost at a boundary.
-/

namespace Ecma119.Volume

/-! ## Where a pattern occurs -/

section Occurrences

variable {pattern : Bytes}

/-- A pattern occurs at a position exactly if the data from there on starts with it. -/
theorem mem_occurrences (hne : pattern ≠ []) {data : Bytes} {offset position : Nat} :
    position ∈ occurrences pattern offset data ↔
      offset ≤ position ∧ pattern <+: data.drop (position - offset) := by
  induction data generalizing offset with
  | nil =>
    refine ⟨fun h => by simp [occurrences] at h, fun h => ?_⟩
    rw [List.drop_nil, List.prefix_nil] at h
    exact absurd h.2 hne
  | cons b rest ih =>
    have hstart : position ∈ occurrences pattern offset (b :: rest) ↔
        (position = offset ∧ pattern <+: b :: rest) ∨
          position ∈ occurrences pattern (offset + 1) rest := by
      rw [occurrences]
      split
      · next h => simp [List.isPrefixOf_iff_prefix.mp h]
      · next h =>
        rw [List.isPrefixOf_iff_prefix] at h
        simp [h]
    rw [hstart, ih]
    constructor
    · rintro (⟨rfl, h⟩ | ⟨hle, h⟩)
      · exact ⟨Nat.le_refl _, by simpa using h⟩
      · refine ⟨by omega, ?_⟩
        rwa [show position - offset = position - (offset + 1) + 1 by omega, List.drop_succ_cons]
    · rintro ⟨hle, h⟩
      by_cases heq : position = offset
      · subst heq
        exact .inl ⟨rfl, by simpa using h⟩
      · refine .inr ⟨by omega, ?_⟩
        rwa [show position - offset = position - (offset + 1) + 1 by omega,
          List.drop_succ_cons] at h

/-- The search goes through a window from front to back, and starts no earlier than the window does. -/
theorem pairwise_occurrences (pattern : Bytes) (data : Bytes) (offset : Nat) :
    (occurrences pattern offset data).Pairwise (· < ·) ∧
      ∀ position ∈ occurrences pattern offset data, offset ≤ position := by
  induction data generalizing offset with
  | nil => simp [occurrences]
  | cons b rest ih =>
    obtain ⟨hsorted, hle⟩ := ih (offset + 1)
    rw [occurrences]
    split
    · refine ⟨List.pairwise_cons.mpr ⟨fun position h => hle position h, hsorted⟩, ?_⟩
      intro position h
      rcases List.mem_cons.mp h with rfl | h
      · exact Nat.le_refl _
      · exact Nat.le_of_succ_le (hle position h)
    · exact ⟨hsorted, fun position h => Nat.le_of_succ_le (hle position h)⟩

end Occurrences

/-! ## Sightings -/

/-- A place in an image, and the window in which it is come upon: that of the sector at `distance`
above or below sector 16, under a frame size. -/
structure Sighting where
  distance : Nat
  below : Bool
  frameSize : UInt32
  position : Nat

namespace Sighting

/-- The number of the sector whose window it is, under the frame size that the place is seen with. -/
def sector (c : Sighting) : Nat := if c.below then 16 - c.distance else 16 + c.distance

def framing (c : Sighting) : Framing := framingFor c.frameSize c.position

/-- The place lies in the window, the window is one of those at less than `limit` sectors, and a primary
descriptor may start there. -/
structure Valid (image : Image) (limit : Nat) (c : Sighting) : Prop where
  distance_lt : c.distance < limit
  below_sixteen : c.below = true → 0 < c.distance ∧ c.distance ≤ 16
  frameSize_mem : c.frameSize ∈ frameSizes
  /-- The window starts one byte before the sector, or at the start of the image. -/
  windowStart : c.sector * c.frameSize.toNat - 1 ≤ c.position
  /-- The descriptor starts in the sector or at the byte before it. -/
  windowStop : c.position < c.sector * c.frameSize.toNat + c.frameSize.toNat
  start : image.bytes.slice c.position 6 = primaryStart

/-- The numbers that tell which of two sightings is come upon first; the first that differs decides. -/
def key (c : Sighting) : List Nat :=
  [c.distance, c.below.toNat, frameSizes.idxOf c.frameSize, c.position]

end Sighting

/-- A frame of any size that is tried has room for the data of a sector: no size is less than 2048. -/
theorem sectorSize_le_of_mem_frameSizes {frameSize : UInt32} (h : frameSize ∈ frameSizes) :
    sectorSize ≤ frameSize.toNat := by
  simp only [frameSizes, List.mem_cons, List.not_mem_nil, or_false] at h
  rcases h with rfl | rfl | rfl <;> decide

/-- The framing that a place gives has the descriptor on sector 16 start there, if that is below `2 ^
63`. -/
theorem byteOffset?_framingFor (frameSize : UInt32) {position : Nat} (h : position < 2 ^ 63) :
    (framingFor frameSize position).byteOffset? descriptorSetStart = some position := by
  have hsize := frameSize.toNat_lt
  have hplace : (framingFor frameSize position).place descriptorSetStart = position := by
    rw [Framing.place, framingFor, Int64.toInt_ofInt_of_le (by omega) (by omega)]
    show ((16 * frameSize.toNat : Nat) : Int) + _ = _
    omega
  rw [Framing.byteOffset?_eq_some_of_lt (by omega), hplace]

/-! ## All of them, in order -/

/-- The sides of sector 16 on which there is a sector at this distance. -/
def sidesAt (distance : Nat) : List Bool :=
  false :: if 0 < distance ∧ distance ≤ 16 then [true] else []

/-- The places in a window at which a primary descriptor may start. -/
def startsIn (image : Image) (p : Probe) : List Nat :=
  match p.window? image.bytes.length with
  | none => []
  | some (first, count) => occurrences primaryStart first (image.bytes.slice first count)

/-- All sightings in an image, in the order of the search: by their distance from sector 16, and at each
distance first above it. -/
def sightings (image : Image) (limit : Nat) : List Sighting :=
  (List.range limit).flatMap fun distance => (sidesAt distance).flatMap fun below =>
    frameSizes.flatMap fun frameSize =>
      (startsIn image ⟨if below then 16 - distance else 16 + distance, frameSize⟩).map
        fun position => ⟨distance, below, frameSize, position⟩

/-- The part of an image at a position is a primary start if the rest of it begins with one. -/
theorem slice_eq_primaryStart_iff {data : Bytes} {position : Nat} :
    data.slice position 6 = primaryStart ↔ primaryStart <+: data.drop position := by
  rw [Bytes.slice, List.prefix_iff_eq_take]
  exact eq_comm

/-- A start takes six bytes, so that an image ends no earlier than behind them. -/
theorem add_six_le_of_start {data : Bytes} {position : Nat}
    (h : data.slice position 6 = primaryStart) : position + 6 ≤ data.length := by
  have hlength := (slice_eq_primaryStart_iff.mp h).length_le
  have hsix : primaryStart.length = 6 := rfl
  rw [List.length_drop] at hlength
  omega

/-- A search of a window finds the starts that lie wholly in it, and no others. -/
theorem prefix_drop_slice {data : Bytes} {first count position : Nat} (hle : first ≤ position) :
    primaryStart <+: (data.slice first count).drop (position - first) ↔
      data.slice position 6 = primaryStart ∧ position + 6 ≤ first + count := by
  have hsix : primaryStart.length = 6 := rfl
  rw [slice_eq_primaryStart_iff, Bytes.slice, List.drop_take, List.drop_drop,
    Nat.add_sub_cancel' hle, List.prefix_take_iff, hsix]
  constructor
  · rintro ⟨hstarts, hcount⟩
    exact ⟨hstarts, by omega⟩
  · rintro ⟨hstarts, hcount⟩
    exact ⟨hstarts, by omega⟩

/-- The starts found in a window are those in the frame and at the byte before it. -/
theorem mem_startsIn {image : Image} {p : Probe} {position : Nat} :
    position ∈ startsIn image p ↔ p.sector * p.frameSize.toNat - 1 ≤ position ∧
      position < p.sector * p.frameSize.toNat + p.frameSize.toNat ∧
      image.bytes.slice position 6 = primaryStart := by
  have hfive : DescriptorHeader.identifier.length = 5 := rfl
  rw [startsIn, Probe.window?, hfive]
  generalize hstop :
    min (p.sector * p.frameSize.toNat + p.frameSize.toNat + 5) image.bytes.length = stop
  by_cases hwindow : p.sector * p.frameSize.toNat - 1 < stop
  · rw [if_pos hwindow]
    dsimp only
    rw [mem_occurrences (by decide)]
    constructor
    · rintro ⟨hle, hstarts⟩
      rw [prefix_drop_slice hle] at hstarts
      exact ⟨hle, by omega, hstarts.1⟩
    · rintro ⟨hle, hlt, hstart⟩
      have hend := add_six_le_of_start hstart
      exact ⟨hle, (prefix_drop_slice hle).mpr ⟨hstart, by omega⟩⟩
  · rw [if_neg hwindow]
    refine ⟨fun h => absurd h List.not_mem_nil, ?_⟩
    rintro ⟨hle, hlt, hstart⟩
    have hend := add_six_le_of_start hstart
    omega

/-- The places in a window are come upon from the first to the last. -/
theorem pairwise_startsIn (image : Image) (p : Probe) :
    (startsIn image p).Pairwise (· < ·) := by
  rw [startsIn]
  split
  · exact .nil
  · exact (pairwise_occurrences _ _ _).1

/-! ## The order -/

/-- There is a sector above sector 16 at every distance, and one below it up to distance 16, but for
distance 0. -/
theorem mem_sidesAt {distance : Nat} {below : Bool} :
    below ∈ sidesAt distance ↔ (below = true → 0 < distance ∧ distance ≤ 16) := by
  rw [sidesAt]
  split
  · next h => cases below <;> simp [h]
  · next h => cases below <;> simp [h]

/-- The list has all sightings in it, and nothing else, so that a search through it misses none. -/
theorem mem_sightings {image : Image} {limit : Nat} {c : Sighting} :
    c ∈ sightings image limit ↔ c.Valid image limit := by
  simp only [sightings, List.mem_flatMap, List.mem_range, List.mem_map, mem_sidesAt, mem_startsIn]
  constructor
  · rintro ⟨distance, hdistance, below, hbelow, frameSize, hframe, position,
      ⟨hstart, hstop, hbytes⟩, rfl⟩
    exact ⟨hdistance, hbelow, hframe, hstart, hstop, hbytes⟩
  · intro h
    exact ⟨c.distance, h.distance_lt, c.below, h.below_sixteen, c.frameSize, h.frameSize_mem,
      c.position, ⟨h.windowStart, h.windowStop, h.start⟩, rfl⟩

/-- Distances are compared first, then the sides, the frame sizes and the places, as the search goes. -/
theorem key_lt_iff {c c' : Sighting} :
    c.key < c'.key ↔ c.distance < c'.distance ∨ c.distance = c'.distance ∧
      (c.below.toNat < c'.below.toNat ∨ c.below.toNat = c'.below.toNat ∧
        (frameSizes.idxOf c.frameSize < frameSizes.idxOf c'.frameSize ∨
          frameSizes.idxOf c.frameSize = frameSizes.idxOf c'.frameSize ∧
            c.position < c'.position)) := by
  simp [Sighting.key, List.cons_lt_cons_iff]

/-- Of two sightings that are not the same, one is come upon first, since their keys tell them apart. -/
theorem Sighting.eq_of_not_lt {c c' : Sighting} (hframe : c.frameSize ∈ frameSizes)
    (h : ¬ c.key < c'.key) (h' : ¬ c'.key < c.key) : c = c' := by
  rw [key_lt_iff] at h h'
  obtain ⟨hdistance, hbelow, hindex, hposition⟩ : c.distance = c'.distance ∧
      c.below.toNat = c'.below.toNat ∧
      frameSizes.idxOf c.frameSize = frameSizes.idxOf c'.frameSize ∧ c.position = c'.position := by
    omega
  obtain ⟨distance, below, frameSize, position⟩ := c
  obtain rfl := (List.idxOf_inj hframe).mp hindex
  obtain rfl : below = c'.below := by
    cases below <;> cases hother : c'.below <;> simp_all
  cases hdistance
  cases hposition
  rfl

private theorem pairwise_frameSizes :
    frameSizes.Pairwise fun a b => frameSizes.idxOf a < frameSizes.idxOf b := by
  decide

private theorem pairwise_sidesAt (distance : Nat) :
    (sidesAt distance).Pairwise fun a b => a.toNat < b.toNat := by
  rw [sidesAt]
  split <;> simp

/-- The list is in the order of the search: by distance, side, frame size and position. -/
theorem pairwise_sightings (image : Image) (limit : Nat) :
    (sightings image limit).Pairwise fun c c' => c.key < c'.key := by
  refine List.pairwise_flatMap.mpr ⟨fun distance _ => ?_, List.pairwise_lt_range.imp ?_⟩
  · refine List.pairwise_flatMap.mpr ⟨fun below _ => ?_, (pairwise_sidesAt distance).imp ?_⟩
    · refine List.pairwise_flatMap.mpr ⟨fun frameSize _ => ?_, pairwise_frameSizes.imp ?_⟩
      · refine List.pairwise_map.mpr ((pairwise_startsIn image _).imp fun h => ?_)
        exact key_lt_iff.mpr (.inr ⟨rfl, .inr ⟨rfl, .inr ⟨rfl, h⟩⟩⟩)
      · intro frameSize frameSize' h c hc c' hc'
        obtain ⟨_, _, rfl⟩ := List.mem_map.mp hc
        obtain ⟨_, _, rfl⟩ := List.mem_map.mp hc'
        exact key_lt_iff.mpr (.inr ⟨rfl, .inr ⟨rfl, .inl h⟩⟩)
    · intro below below' h c hc c' hc'
      obtain ⟨_, _, hc⟩ := List.mem_flatMap.mp hc
      obtain ⟨_, _, hc'⟩ := List.mem_flatMap.mp hc'
      obtain ⟨_, _, rfl⟩ := List.mem_map.mp hc
      obtain ⟨_, _, rfl⟩ := List.mem_map.mp hc'
      exact key_lt_iff.mpr (.inr ⟨rfl, .inl h⟩)
  · intro distance distance' h c hc c' hc'
    simp only [List.mem_flatMap, List.mem_map] at hc hc'
    obtain ⟨_, _, _, _, _, _, rfl⟩ := hc
    obtain ⟨_, _, _, _, _, _, rfl⟩ := hc'
    exact key_lt_iff.mpr (.inl h)

/-! ## Nothing is lost at a boundary -/

/-- Every start in the range of the search is seen: windows cover it without gaps. -/
theorem exists_sighting {image : Image} {limit position : Nat} {frameSize : UInt32}
    (hlimit : 1 ≤ limit) (hframe : frameSize ∈ frameSizes)
    (hfirst : (16 - (limit - 1)) * frameSize.toNat - 1 ≤ position)
    (hlast : position ≤ (17 + (limit - 1)) * frameSize.toNat - 1)
    (hstart : image.bytes.slice position 6 = primaryStart) :
    ∃ c : Sighting, c.Valid image limit ∧ c.frameSize = frameSize ∧ c.position = position := by
  obtain ⟨frame, hsize, hpos⟩ : ∃ frame, frameSize.toNat = frame ∧ 0 < frame :=
    ⟨_, rfl, Nat.lt_of_lt_of_le sectorSize_pos (sectorSize_le_of_mem_frameSizes hframe)⟩
  rw [hsize] at hfirst hlast
  -- The sector that the place lies in, or the first one if it lies at the byte before that.
  obtain ⟨sector, hlow, hhigh, hwindow, hstop⟩ : ∃ sector, 16 - (limit - 1) ≤ sector ∧
      sector ≤ 16 + (limit - 1) ∧ sector * frame - 1 ≤ position ∧
      position < sector * frame + frame := by
    by_cases hinside : (16 - (limit - 1)) * frame ≤ position
    · have hlt := Nat.lt_div_mul_add (a := position) hpos
      have hle := Nat.div_mul_le_self position frame
      refine ⟨position / frame, (Nat.le_div_iff_mul_le hpos).mpr hinside, ?_, by omega, hlt⟩
      rw [← Nat.lt_succ_iff, Nat.div_lt_iff_lt_mul hpos]
      have : 0 < (17 + (limit - 1)) * frame := Nat.mul_pos (by omega) hpos
      rw [show (16 + (limit - 1)).succ = 17 + (limit - 1) by omega]
      omega
    · exact ⟨16 - (limit - 1), Nat.le_refl _, by omega, hfirst, by omega⟩
  -- Its distance from sector 16 and the side it lies on.
  obtain ⟨distance, below, hdistance, hbelow, hsector⟩ : ∃ distance below, distance < limit ∧
      (below = true → 0 < distance ∧ distance ≤ 16) ∧
      (if below then 16 - distance else 16 + distance) = sector := by
    by_cases habove : 16 ≤ sector
    · exact ⟨sector - 16, false, by omega, fun h => absurd h Bool.false_ne_true,
        Nat.add_sub_cancel' habove⟩
    · exact ⟨16 - sector, true, by omega, fun _ => by omega, Nat.sub_sub_self (by omega)⟩
  subst hsector hsize
  exact ⟨⟨distance, below, frameSize, position⟩,
    ⟨hdistance, hbelow, hframe, hwindow, hstop, hstart⟩, rfl, rfl⟩

end Ecma119.Volume
