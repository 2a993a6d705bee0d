import Ecma119.Proofs.File.Cut
import Ecma119.Proofs.File.Stale
import Ecma119.Proofs.Source.Tracing
import Ecma119.Tree.Owner

/-!
# The sectors of a file

That a sector belongs to a file is told in two ways: by the places of its bytes, which a reader goes
to, and by the extents, which the search for the owner of a sector looks at. The two agree
(`hasSector_iff`). So whatever a reader is asked for, it reads sectors of its file only, and when it
has read the whole file it has read all of them (`HasAsked`, `owned_sectors_read`).
-/

namespace Ecma119

variable {extents : List Extent} {position : Nat} {place : FilePlace} {lsn : UInt32}

/-! ## Places and extents -/

/-- An extent contains the sectors from its first on and before the one that it ends with. -/
theorem Extent.contains_iff (x : Extent) (lsn : UInt32) :
    x.contains lsn = true ↔ x.lsn.toNat ≤ lsn.toNat ∧ lsn.toNat < x.endLsn := by
  rw [contains, Bool.and_eq_true, decide_eq_true_eq, decide_eq_true_eq, UInt32.le_iff_toNat_le]

/-- Behind the bytes of the extents before them, extents have the places that they have by
themselves. -/
theorem locate_append (before extents : List Extent) (position : Nat) :
    locate (before ++ extents) (totalSize before + position) = locate extents position := by
  induction before with
  | nil => rw [List.nil_append, totalSize, List.map_nil, List.sum_nil, Nat.zero_add]
  | cons x rest ih =>
    rw [List.cons_append, locate, totalSize_cons, dif_neg (by omega), Nat.add_assoc,
      Nat.add_sub_cancel_left, ih]

/-- A place is in one of the extents, and so is all that is available there, up to the end of its sector.
-/
theorem exists_extent_of_locate (hlast : ∀ x ∈ extents, x.endLsn ≤ 2 ^ 32)
    (hplace : locate extents position = some place) :
    ∃ before x after, extents = before ++ x :: after ∧ x.contains place.lsn = true ∧
      totalSize before ≤ position ∧
      position + place.available ≤ totalSize before + x.size.toNat := by
  induction extents generalizing position with
  | nil => cases hplace
  | cons x rest ih =>
    obtain ⟨hx, hrest⟩ := List.forall_mem_cons.mp hlast
    rw [locate] at hplace
    split at hplace
    · next hinside =>
      cases hplace
      have hindex := x.div_lt_sectorCount hinside
      refine ⟨[], x, rest, rfl, ?_, Nat.zero_le _, ?_⟩
      · rw [Extent.contains_iff, Extent.toNat_lsn_add hx hindex]
        exact ⟨Nat.le_add_right _ _, Nat.add_lt_add_left hindex _⟩
      · simp only [totalSize, List.map_nil, List.sum_nil]
        omega
    -- In a later extent it is counted from the end of this one.
    · next hpast =>
      obtain ⟨before, y, after, rfl, hcontains, hfrom, hto⟩ := ih hrest hplace
      refine ⟨x :: before, y, after, rfl, hcontains, ?_, ?_⟩
      · rw [totalSize_cons]
        omega
      · rw [totalSize_cons]
        omega

/-- Without the bound on its last sector, a place may be far from the extent: here at the first sector. -/
example : (locate [⟨4294967295, 4096⟩] 2048).map FilePlace.lsn = some 0 := by decide

namespace FileReader

/-- Some byte is in the sector if one of the extents has it, and only then, as every sector counted has a
byte. -/
theorem hasSector_iff (hlast : ∀ x ∈ extents, x.endLsn ≤ 2 ^ 32) (lsn : UInt32) :
    HasSector extents lsn ↔ ∃ x ∈ extents, x.contains lsn = true := by
  constructor
  · rintro ⟨position, place, hplace, rfl⟩
    obtain ⟨before, x, after, rfl, hcontains, -⟩ := exists_extent_of_locate hlast hplace
    exact ⟨x, List.mem_append_right before List.mem_cons_self, hcontains⟩
  · rintro ⟨x, hx, hcontains⟩
    obtain ⟨before, after, rfl⟩ := List.append_of_mem hx
    obtain ⟨hfrom, hto⟩ := (x.contains_iff lsn).mp hcontains
    -- The first byte that the extent has in the sector.
    obtain ⟨index, hindex⟩ := Nat.exists_eq_add_of_le hfrom
    have hinside : index * sectorSize < x.size.toNat := by
      rw [Extent.endLsn, Extent.toNat_sectorCount] at hto
      dsimp only [sectorSize]
      omega
    refine ⟨totalSize before + index * sectorSize, _,
      (locate_append before (x :: after) _).trans (dif_pos hinside), ?_⟩
    dsimp only
    rw [Nat.mul_div_cancel _ sectorSize_pos, ← UInt32.toNat_inj,
      Extent.toNat_lsn_add (hlast x hx) (by rw [Extent.endLsn] at hto; omega), hindex]

/-- A file contains a sector exactly if one of its extents has it, as long as none of them goes beyond
the last number. -/
theorem containsLsn_iff {file : Entry} (hlast : ∀ x ∈ file.extents, x.endLsn ≤ 2 ^ 32)
    (lsn : UInt32) : file.containsLsn lsn = true ↔ HasSector file.extents lsn := by
  rw [Entry.containsLsn, List.any_eq_true, hasSector_iff hlast]

end FileReader

/-- The search for the owner of the sector ends at the entry, wherever it looks at it. -/
def Tree.EndsAt (lsn : UInt32) (file : Entry) : Prop :=
  ∀ (f : Frontier) (path : String) (rest : List Entry),
    f.visit lsn path (file :: rest) = .inl (path ++ "/" ++ file.name, file)

/-- The search for an owner ends at a file exactly if the file contains the sector. -/
theorem Tree.endsAt_iff (lsn : UInt32) (file : Entry) :
    EndsAt lsn file ↔ file.containsLsn lsn = true := by
  constructor
  · intro h
    by_contra hpassed
    have hvisit := h ⟨[], []⟩ "" []
    rw [Frontier.visit, if_neg hpassed] at hvisit
    split at hvisit <;> cases hvisit
  · intro hcontains f path rest
    rw [Frontier.visit, if_pos hcontains]

/-! ## What a reader reads -/

namespace FileReader

variable {δ : Type} [BlockDevice δ]

/-- Reads that succeed one after the other are one delivery, so that their parts need not be looked at.
-/
theorem deliver_of_reads {r : FileReader} {s : SectorSource δ} {buffers : List Bytes}
    (hok : ∀ answer ∈ ((performAll (buffers.map .read) r).run s).1.1, answer.isFailure = false) :
    let run := (performAll (buffers.map .read) r).run s
    ∃ d, (r.deliver (buffers.map List.length).sum).run s = (d, run.2) ∧ d.failure = none := by
  induction buffers generalizing r s with
  | nil => exact ⟨_, deliver_zero, rfl⟩
  | cons buffer rest ih =>
    cases hread : (r.read buffer).run s with
    | mk result s₁ =>
      obtain ⟨outcome, bytes, r₁⟩ := result
      have hrun := performAll_cons (perform_read hread)
        (rfl : (performAll (rest.map .read) r₁).run s₁ = _)
      rw [← List.map_cons (f := Call.read)] at hrun
      rw [hrun] at hok ⊢
      obtain ⟨hfirst, hrest⟩ := List.forall_mem_cons.mp hok
      cases outcome with
      | error failure => cases hfirst
      | ok count =>
        obtain ⟨d, hdeliver, hnone, -, -, rfl⟩ := deliver_of_read hread
        obtain ⟨later, hlater, hlast⟩ := ih hrest
        exact ⟨_, deliver_add hdeliver hnone hlater, hlast⟩

variable {blockSize : Nat} {framing : Framing} {lsns : List UInt32} {r r' : FileReader}
variable {s s' : SectorSource (Traced δ)}

/-- The device has been asked for the blocks of these sectors, in this order, and nothing else. -/
def IsReadOf (blockSize : Nat) (framing : Framing) (lsns : List UInt32)
    (reads : List (Nat × Nat)) : Prop :=
  reads.map some = lsns.map (framing.blocksOf? blockSize)

/-- A reader and its source, where the device has been asked for these sectors of the extents. -/
structure HasAsked (blockSize : Nat) (framing : Framing) (extents : List Extent)
    (lsns : List UInt32) (r : FileReader) (s : SectorSource (Traced δ)) : Prop where
  ofBlocks : s.OfBlocks blockSize framing
  length_eq : r.sector.length = sectorSize
  extents_eq : r.extents = extents
  isReadOf : IsReadOf blockSize framing lsns s.device.reads
  hasSector : ∀ lsn ∈ lsns, HasSector extents lsn
  mem_of_cached : ∀ lsn, r.cached = some lsn → lsn ∈ lsns

/-- A reader that has just been made has asked for no sector. -/
theorem hasAsked_ofEntry {s : SectorSource δ} (hs : s.OfBlocks blockSize framing) (file : Entry) :
    HasAsked blockSize framing file.extents [] (ofEntry file) s.traced :=
  ⟨hs.traced, Bytes.length_zeros _, rfl, rfl, List.forall_mem_nil _, fun _ h => nomatch h⟩

theorem HasAsked.seek (h : HasAsked blockSize framing extents lsns r s) (position : Nat) :
    HasAsked blockSize framing extents lsns (r.seek position) s :=
  ⟨h.ofBlocks, h.length_eq, h.extents_eq, h.isReadOf, h.hasSector, h.mem_of_cached⟩

/-- Loading the sector of a place asks for no other, and when it has succeeded that has been asked
for. -/
theorem HasAsked.load (h : HasAsked blockSize framing extents lsns r s)
    (hplace : locate r.extents r.position = some place) :
    let run := (r.load place.lsn).run s
    ∃ asked, lsns ⊆ asked ∧ HasAsked blockSize framing extents asked run.1.2 run.2 ∧
      (run.1.1 = .ok () → place.lsn ∈ asked) := by
  by_cases hcached : r.cached = some place.lsn
  · rw [load_cached hcached]
    exact ⟨lsns, List.Subset.refl _, h, fun _ => h.mem_of_cached _ hcached⟩
  obtain ⟨⟨outcome, sector⟩, s₁, hfill, hs₁, hlength, hreads⟩ :=
    h.ofBlocks.run_fillSector place.lsn h.length_eq
  have hhas : HasSector extents place.lsn := ⟨r.position, place, h.extents_eq ▸ hplace, rfl⟩
  rw [FileReader.load, if_neg hcached, run_stateBind hfill]
  rcases hreads with ⟨blocks, hblocks, hread⟩ | ⟨hread, failure, hfailure⟩
  · have hasked : IsReadOf blockSize framing (lsns ++ [place.lsn]) s₁.device.reads := by
      rw [IsReadOf, hread, List.map_append, List.map_append, h.isReadOf, List.map_singleton,
        List.map_singleton, hblocks]
    have hall : ∀ lsn ∈ lsns ++ [place.lsn], HasSector extents lsn :=
      List.forall_mem_append.mpr ⟨h.hasSector, List.forall_mem_singleton.mpr hhas⟩
    have hmem : place.lsn ∈ lsns ++ [place.lsn] := List.mem_append_right _ List.mem_cons_self
    refine ⟨lsns ++ [place.lsn], List.subset_append_left _ _, ?_, fun _ => hmem⟩
    cases outcome with
    | ok =>
      refine ⟨hs₁, hlength, h.extents_eq, hasked, hall, fun lsn hlsn => ?_⟩
      exact Option.some.inj hlsn ▸ hmem
    | error failure =>
      exact ⟨hs₁, hlength, h.extents_eq, hasked, hall, fun lsn hlsn =>
        List.mem_append_left _ (h.mem_of_cached lsn hlsn)⟩
  · obtain rfl : outcome = .error failure := hfailure
    refine ⟨lsns, List.Subset.refl _, ⟨hs₁, hlength, h.extents_eq, hread ▸ h.isReadOf, h.hasSector,
      h.mem_of_cached⟩, fun hok => ?_⟩
    cases hok

/-- Whatever is asked of a reader, it asks for sectors of its extents only. The induction is on the
calls. -/
theorem HasAsked.performAll (h : HasAsked blockSize framing extents lsns r s)
    (calls : List Call) :
    let run := (FileReader.performAll calls r).run s
    ∃ asked, HasAsked blockSize framing extents asked run.1.2 run.2 := by
  refine performAll_keeps (fun r s => ∃ asked, HasAsked blockSize framing extents asked r s)
    ?_ ?_ ⟨lsns, h⟩ calls
  · rintro r s place ⟨lsns, h⟩ hplace
    obtain ⟨asked, -, hasked, -⟩ := h.load hplace
    exact ⟨asked, hasked⟩
  · rintro r s position ⟨lsns, h⟩
    exact ⟨lsns, h.seek position⟩

/-- A delivery without a failure has asked for every sector in which one of the bytes has its
place. -/
theorem HasAsked.deliver {want : Nat} {d : Delivery}
    (h : HasAsked blockSize framing extents lsns r s) (hrun : (r.deliver want).run s = (d, s'))
    (hnone : d.failure = none) :
    ∃ asked, lsns ⊆ asked ∧ HasAsked blockSize framing extents asked d.reader s' ∧
      ∀ position place, r.position ≤ position → position < r.position + want →
        locate extents position = some place → place.lsn ∈ asked := by
  induction want using Nat.strongRecOn generalizing r s d lsns with
  | ind want ih =>
    rcases deliver_cases hrun hnone with ⟨hend, rfl, rfl⟩ |
      ⟨first, r₁, s₁, later, hwant, hfirst, hload, hlater, hlast, rfl⟩
    -- Nothing was wanted, or there is no place behind the end.
    · refine ⟨lsns, List.Subset.refl _, h, fun position place hfrom hlt hplace => ?_⟩
      have htotal := locate_eq_none_iff.mp (hend.resolve_left (by omega))
      rw [h.extents_eq] at htotal
      rw [locate_eq_none_iff.mpr (Nat.le_trans htotal hfrom)] at hplace
      cases hplace
    · obtain ⟨-, hposition, -⟩ := load_ok hload
      have hloaded := h.load hfirst
      rw [hload] at hloaded
      obtain ⟨asked, hsubset, hasked, hmem⟩ := hloaded
      have hpos := first.available_pos
      obtain ⟨all, hsubset', hall, hcovered⟩ :=
        ih (want - min first.available want) (by omega) (hasked.seek _) hlater hlast
      rw [seek_position, hposition] at hcovered
      refine ⟨all, List.Subset.trans hsubset hsubset', hall,
        fun position place hfrom hlt hplace => ?_⟩
      by_cases hnear : position < r.position + min first.available want
      -- The byte is in the sector that was loaded first.
      · have hwithin : position - r.position < first.available := by omega
        obtain ⟨same, hsame, hlsn, -, -⟩ := locate_add hfirst hwithin
        rw [Nat.add_sub_cancel' hfrom, h.extents_eq, hplace] at hsame
        obtain rfl := Option.some.inj hsame
        exact hlsn ▸ hsubset' (hmem rfl)
      · exact hcovered position place (by omega) (by omega) hplace

theorem isFailure_answers (content : Bytes) (position : Nat) (calls : List Call) :
    ∀ answer ∈ (answers content position calls).1, answer.isFailure = false := by
  induction calls generalizing position with
  | nil => exact List.forall_mem_nil _
  | cons call rest ih =>
    refine List.forall_mem_cons.mpr ⟨?_, ih _⟩
    cases call <;> rfl

/-- Where the extents lie in the image that a source serves, no call fails, in whatever order they are
made. -/
theorem calls_succeed {s : SectorSource δ} {image : Image} (hs : s.Serves image framing)
    {file : Entry} (hfile : ∀ x ∈ file.extents, x.LiesIn image framing) (calls : List Call) :
    ∀ answer ∈ ((FileReader.performAll calls (ofEntry file)).run s).1.1,
      answer.isFailure = false := by
  obtain ⟨r', s', hrun, -⟩ := run_performAll hfile hs (coherent_ofEntry file) calls
  rw [hrun]
  exact isFailure_answers _ _ calls

/-- **The sectors that are read for a file are those it owns.** Every byte below the size of the
extents has a place, in a sector of one of the extents and within that extent, and every sector of an
extent is the place of some byte. So whatever is asked of a reader, the device is read for sectors
only at which the search for their owner ends with the file; and once reads have gone over the whole
file, it has been read for all of these. -/
theorem owned_sectors_read {file : Entry} (hlast : ∀ x ∈ file.extents, x.endLsn ≤ 2 ^ 32) :
    (∀ position, (locate file.extents position).isSome = true ↔
      position < totalSize file.extents) ∧
    (∀ position place, locate file.extents position = some place →
      file.containsLsn place.lsn = true ∧ 1 ≤ place.available ∧
      place.inSector + place.available ≤ sectorSize ∧
      ∃ before x after, file.extents = before ++ x :: after ∧ x.contains place.lsn = true ∧
        totalSize before ≤ position ∧
        position + place.available ≤ totalSize before + x.size.toNat) ∧
    (∀ lsn, file.containsLsn lsn = true →
      ∃ position place, locate file.extents position = some place ∧ place.lsn = lsn) ∧
    ∀ {δ : Type} [BlockDevice δ] {blockSize : Nat} {framing : Framing} (s : SectorSource δ),
      s.OfBlocks blockSize framing →
      (∀ calls, let run := (performAll calls (ofEntry file)).run s.traced
        ∃ lsns, IsReadOf blockSize framing lsns run.2.device.reads ∧
          ∀ lsn ∈ lsns, Tree.EndsAt lsn file) ∧
      (∀ buffers : List Bytes, totalSize file.extents ≤ (buffers.map List.length).sum →
        let run := (performAll (buffers.map .read) (ofEntry file)).run s.traced
        (∀ answer ∈ run.1.1, answer.isFailure = false) →
        ∃ lsns, IsReadOf blockSize framing lsns run.2.device.reads ∧
          ∀ lsn, lsn ∈ lsns ↔ Tree.EndsAt lsn file) := by
  refine ⟨fun position => ?_, fun position place hplace => ?_,
    fun lsn => (containsLsn_iff hlast lsn).mp, fun s hs => ⟨fun calls => ?_, ?_⟩⟩
  · rw [Option.isSome_iff_ne_none, Ne, locate_eq_none_iff, Nat.not_le]
  · exact ⟨(containsLsn_iff hlast _).mpr ⟨position, place, hplace, rfl⟩, place.available_pos,
      locate_fits hplace, exists_extent_of_locate hlast hplace⟩
  · obtain ⟨lsns, hasked⟩ := (hasAsked_ofEntry hs file).performAll calls
    refine ⟨lsns, hasked.isReadOf, fun lsn hlsn => ?_⟩
    rw [Tree.endsAt_iff, containsLsn_iff hlast]
    exact hasked.hasSector lsn hlsn
  · intro buffers hwhole run hok
    obtain ⟨d, hrun, hnone⟩ := deliver_of_reads hok
    obtain ⟨lsns, -, hasked, hcovered⟩ := (hasAsked_ofEntry hs file).deliver hrun hnone
    refine ⟨lsns, hasked.isReadOf, fun lsn => ?_⟩
    rw [Tree.endsAt_iff, containsLsn_iff hlast]
    refine ⟨hasked.hasSector lsn, ?_⟩
    rintro ⟨position, place, hplace, rfl⟩
    refine hcovered position place (Nat.zero_le _) ?_ hplace
    have hsize : position < totalSize file.extents := by
      rw [← Nat.not_le, ← locate_eq_none_iff, hplace]
      exact Option.some_ne_none place
    show position < 0 + _
    omega

/-- Five bytes of one sector, in two extents with an empty one between them. -/
def sharedSector : Entry where
  kind := .file
  name := "A"
  rawName := "A"
  size := 5
  extents := [⟨1, 3⟩, ⟨7, 0⟩, ⟨1, 2⟩]
  flags := ⟨0⟩
  xa := none
  timestamp := none
  volumeSequenceNumber := 1

theorem liesIn_sharedSector {blockSize : Nat} (hpos : 0 < blockSize) (hdvd : blockSize ∣ 4096) :
    ∀ x ∈ sharedSector.extents, x.LiesIn (twoSectors blockSize hpos hdvd) .standard := by
  have hplaces : ∀ x ∈ sharedSector.extents, x.endLsn ≤ 2 ^ 32 ∧
      ∀ index < x.sectorCount.toNat,
        ∃ offset ∈ Framing.standard.byteOffset? (x.lsn + UInt32.ofNat index),
          offset + sectorSize ≤ 4096 := by
    decide
  intro x hx
  obtain ⟨hlast, hfound⟩ := hplaces x hx
  refine ⟨hlast, fun index hindex => ?_⟩
  rw [twoSectors, Bytes.length_zeros]
  exact hfound index hindex

/-- Two reads that go over the file read the device for its sector, and for no other. -/
theorem owned_sectors_read_sharedSector :
    let s : SectorSource MemoryDevice := .ofDevice (.ofBytes 512 (Bytes.zeros 4096))
    let run := (performAll [.read (Bytes.zeros 2), .read (Bytes.zeros 4)]
      (ofEntry sharedSector)).run s.traced
    (locate sharedSector.extents 4).isSome = true ∧
      ∃ lsns, IsReadOf 512 .standard lsns run.2.device.reads ∧ 1 ∈ lsns ∧ 0 ∉ lsns ∧ 7 ∉ lsns := by
  intro s run
  have hlength : (Bytes.zeros 4096).length = 4096 := Bytes.length_zeros _
  have hdvd : 512 ∣ (Bytes.zeros 4096).length := by
    rw [hlength]
    decide
  have hlt : (Bytes.zeros 4096).length < 2 ^ 64 := by
    rewrite [hlength]
    decide
  have hheld : (twoSectors 512 (by decide) (by decide)).HeldBy s.device :=
    @MemoryDevice.heldBy_ofBytes ⟨Bytes.zeros 4096, 512, by decide, by decide⟩ 512 rfl hdvd hlt
  have hok : ∀ answer ∈ run.1.1, answer.isFailure = false :=
    calls_succeed (s := s.traced) ⟨hheld.traced [], rfl, fun _ h => nomatch h⟩
      (liesIn_sharedSector _ _) _
  have hlast : ∀ x ∈ sharedSector.extents, x.endLsn ≤ 2 ^ 32 := by decide
  obtain ⟨hplaces, -, -, hreads⟩ := owned_sectors_read hlast
  have hwhole : totalSize sharedSector.extents ≤
      ([Bytes.zeros 2, Bytes.zeros 4].map List.length).sum := by decide
  obtain ⟨lsns, hread, howned⟩ :=
    (hreads s ⟨by decide, MemoryDevice.hasBlocks _, rfl⟩).2 _ hwhole hok
  refine ⟨(hplaces 4).mpr (by decide), lsns, hread, ?_, ?_, ?_⟩
  · exact (howned 1).mpr ((Tree.endsAt_iff 1 sharedSector).mpr (by decide))
  · exact fun h => absurd ((Tree.endsAt_iff 0 sharedSector).mp ((howned 0).mp h)) (by decide)
  · exact fun h => absurd ((Tree.endsAt_iff 7 sharedSector).mp ((howned 7).mp h)) (by decide)

end FileReader

end Ecma119
