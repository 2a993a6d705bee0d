import Ecma119.Proofs.Volume.SearchFirst
import Mathlib.Data.List.Basic

/-!
# Searching a plain image

An image whose volume can be read under the standard framing has a primary descriptor where sector 16 is.
That is the first place a search comes to: the window there starts one byte before the descriptor, and no
start of one can lie at that byte. So nothing else in the image is tried before it.
-/

namespace Ecma119.Volume

variable {δ : Type} [BlockDevice δ] {image : Image} {before other framing : Framing}
variable {s t : SectorSource δ} {options : MountOptions} {volume : Volume} {limit : Nat}

/-- What a confirmation comes to depends on the image only, not on the framing in use or what has been
read. -/
theorem checkUnder_eq (hs : s.Serves image before) (ht : t.Serves image other)
    (options : MountOptions) (framing : Framing) :
    checkUnder options s framing = checkUnder options t framing := by
  obtain ⟨t', hrun, -⟩ := yields_confirm hs options framing _ (ht.setFraming framing)
  rw [← run_confirm options t framing, hrun]

/-- The start of a primary descriptor on sector 16 of a plain image is at byte 32768. -/
theorem start_of_holds {d : VolumeDescriptor} (h : Holds options (image.readSector .standard) 0 d)
    (htype : d.type = .primary) : image.bytes.slice 32768 6 = primaryStart := by
  obtain ⟨version, bytes, hbytes, hhead⟩ := h.hasHead
  obtain ⟨offset, hoffset, -, hslice⟩ := Image.readSector_eq_ok.mp hbytes
  obtain rfl : 32768 = offset := Option.some.inj hoffset
  have hstart : primaryStart <+: (DescriptorHeader.mk d.type.code version).encode := by
    rw [htype]
    exact List.prefix_append primaryStart [version]
  rw [slice_eq_primaryStart_iff]
  refine (hstart.trans hhead).trans ?_
  rw [hslice]
  exact List.take_prefix _ _

/-- Starts do not overlap: the second byte of a start is not its first, so that none is one byte earlier.
-/
theorem not_start_before {data : Bytes} {position : Nat}
    (h : data.slice (position + 1) 6 = primaryStart) : data.slice position 6 ≠ primaryStart := by
  intro hbefore
  have hfirst : data[position + 1]? = primaryStart[0]? := by
    rw [← h, Bytes.slice, List.getElem?_take_of_lt (by decide), List.getElem?_drop, Nat.add_zero]
  have hsecond : data[position + 1]? = primaryStart[1]? := by
    rw [← hbefore, Bytes.slice, List.getElem?_take_of_lt (by decide), List.getElem?_drop]
  exact absurd (hfirst.symm.trans hsecond) (by decide)

/-- Sector 16 of a plain image, come upon in its own window. -/
def Sighting.plain : Sighting := ⟨0, false, 2048, 32768⟩

/-- No start is come upon before the one on sector 16 of a plain image, whatever else the image holds. -/
theorem Sighting.plain_first {c : Sighting} (hstart : image.bytes.slice 32768 6 = primaryStart)
    (hc : c.Valid image limit) : ¬ c.key < Sighting.plain.key := by
  intro hkey
  have hindex : frameSizes.idxOf 2048 = 0 := rfl
  rw [key_lt_iff] at hkey
  simp only [Sighting.plain, hindex, Bool.toNat_false, Nat.not_lt_zero, false_or] at hkey
  obtain ⟨hdistance, hbelow, hframe, hposition⟩ := hkey
  have hsize : c.frameSize = 2048 := by
    rw [← hindex] at hframe
    exact (List.idxOf_inj hc.frameSize_mem).mp hframe
  have hsector : c.sector = 16 := by
    rw [Sighting.sector, Bool.toNat_eq_zero.mp hbelow, hdistance]
    rfl
  -- all that the window has before the start is one byte
  have hwindow := hc.windowStart
  rw [hsector, hsize] at hwindow
  change 32767 ≤ c.position at hwindow
  have hbefore : c.position = 32767 := by omega
  have hother := hc.start
  rw [hbefore] at hother
  exact not_start_before hstart hother

/-- Where the standard framing is confirmed, the sighting at byte 32768 is the first that is. -/
theorem isFirst_plain (hlimit : 1 ≤ limit) {check : Framing → Except Error Volume}
    (hstart : image.bytes.slice 32768 6 = primaryStart) (hcheck : check .standard = .ok volume) :
    IsFirst image limit check Sighting.plain volume where
  valid := ⟨hlimit, fun h => (nomatch h), by decide, by decide, by decide, hstart⟩
  confirms := hcheck
  fails_before _ hc hkey := absurd hkey (Sighting.plain_first hstart hc)

/-- **A search agrees with a plain mount.** If the volume is confirmed under the standard framing, a
search finds that framing and that volume, whatever framing is in use before and whatever else the image
has that looks like a descriptor. -/
theorem search_of_plain (hs : s.Serves image before) (ht : t.Serves image other) (hlimit : 1 ≤ limit)
    (hplain : checkUnder options t .standard = .ok volume) :
    ∃ s', (search options limit).run.run s = (.ok (.standard, volume), s') ∧
      s'.Serves image .standard := by
  obtain ⟨hholds, htype⟩ := holds_of_checkUnder ht hplain
  have hfirst := isFirst_plain hlimit (start_of_holds hholds htype)
    ((checkUnder_eq hs ht options .standard).trans hplain)
  obtain ⟨s', hsearch⟩ := run_search hs options limit
  rw [firstUnder_of_isFirst hfirst] at hsearch
  exact ⟨s', hsearch⟩

/-- A plain image with a second descriptor behind the primary one. -/
def withDecoy : Image := .inSectors (Bytes.zeros 32768 ++ (blankPrimary ++ blankPrimary))

theorem length_withDecoy : withDecoy.bytes.length = 36864 := by
  rw [withDecoy, Image.inSectors, List.length_append, List.length_append, length_blankPrimary,
    Bytes.length_zeros]

/-- The first of its descriptors fills sector 16, and the second comes right behind it. -/
theorem slice_withDecoy : withDecoy.bytes.slice 32768 2048 = blankPrimary := by
  rw [Bytes.slice, withDecoy, Image.inSectors, List.drop_left' (Bytes.length_zeros _),
    List.take_left' length_blankPrimary]

/-- The decoy and another framing in use make no difference: the plain volume is found. -/
theorem search_of_plain_decoy :
    let device := MemoryDevice.ofBytes 2048 withDecoy.bytes
    let options : MountOptions := { confirmation := .primaryDescriptor }
    ∃ volume, checkUnder options (SectorSource.ofDevice device .standard) .standard = .ok volume ∧
      ∃ s', (search options 1).run.run (SectorSource.ofDevice device ⟨2352, 16⟩) =
        (.ok (.standard, volume), s') := by
  intro device options
  have hserves (framing : Framing) : (SectorSource.ofDevice device framing).Serves withDecoy framing :=
    SectorSource.serves_ofDevice (MemoryDevice.heldBy_ofBytes rfl ⟨18, length_withDecoy⟩
      (by rw [length_withDecoy]; decide)) framing
  obtain ⟨d, hparse, htype, -⟩ := parse_blankPrimary options.policy
  have hholds : Holds options (withDecoy.readSector .standard) 0 d := by
    refine ⟨blankPrimary, Image.readSector_eq_ok.mpr ⟨32768, by decide, ?_, slice_withDecoy.symm⟩,
      hparse⟩
    rw [length_withDecoy]
    decide
  have hplain := checkUnder_of_holds rfl (hserves .standard) hholds htype
  obtain ⟨s', hsearch, -⟩ :=
    search_of_plain (hserves ⟨2352, 16⟩) (hserves .standard) (Nat.le_refl 1) hplain
  exact ⟨_, hplain, s', hsearch⟩

end Ecma119.Volume
