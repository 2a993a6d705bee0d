import Ecma119.Proofs.File.Stale
import Ecma119.Proofs.Source.SectorRun

/-!
# Reads that are broken off

A read that meets a sector it cannot load fails, but what it took from the sectors before stays taken:
the reader stands at the first byte of the sector that could not be loaded. `deliver_brokenOff` says that
a delivery that fails is one that goes well, of fewer bytes, and one load behind it that does not. So a
read that fails leaves the reader where it was if the first sector is the one that fails, and only then
(`failed_read_moves`). Repeated when the device has recovered, it gives the bytes from the new position
on, and how many were skipped is told by nothing but that position.
-/

namespace Ecma119.FileReader

variable {δ : Type} [BlockDevice δ] {image : Image} {framing : Framing}
variable {leaves : Bytes → Bytes → Prop} {s s' s₁ : SectorSource δ} {r r' r₁ : FileReader}
variable {want : Nat} {failure : Error} {bytes buffer : Bytes} {place : FilePlace}

/-! ## Deliveries -/

/-- No more is delivered than is wanted, so that a delivery never writes past the buffer. -/
theorem length_deliver_le {d : Delivery} (hrun : (r.deliver want).run s = (d, s'))
    (hnone : d.failure = none) : d.bytes.length ≤ want := by
  induction want using Nat.strongRecOn generalizing r s d with
  | ind want ih =>
    rcases deliver_cases hrun hnone with ⟨-, rfl, -⟩ |
      ⟨place, r₁, s₁, later, hwant, -, -, hlater, hlast, rfl⟩
    · exact Nat.zero_le want
    · have hpos := place.available_pos
      have hrest := ih (want - min place.available want) (by omega) hlater hlast
      rw [List.length_append, Bytes.length_slice_eq_min]
      omega

/-- Having the sector of the position loaded before makes no difference to a delivery. -/
theorem deliver_of_load (hwant : want ≠ 0) (hplace : locate r.extents r.position = some place)
    (hload : (r.load place.lsn).run s = ((.ok (), r₁), s₁)) :
    (r.deliver want).run s = (r₁.deliver want).run s₁ := by
  obtain ⟨hcached, hposition, hextents⟩ := load_ok hload
  rw [deliver_place hwant hplace hload rfl,
    deliver_place hwant (by rw [hposition, hextents]; exact hplace) (load_cached hcached) rfl]

/-- A delivery from `r` goes well for `taken` bytes, after which the sector of the next one cannot be
loaded; `kept` and `s₁` are the reader and the source between the two. -/
structure BreaksOff (r : FileReader) (s : SectorSource δ) (taken : Nat) (kept : Delivery)
    (s₁ : SectorSource δ) (place : FilePlace) (failure : Error) (r' : FileReader)
    (s' : SectorSource δ) : Prop where
  run_eq : (r.deliver taken).run s = (kept, s₁)
  failure_eq : kept.failure = none
  position_eq : kept.reader.position = r.position + taken
  extents_eq : kept.reader.extents = r.extents
  locate_eq : locate r.extents (r.position + taken) = some place
  load_eq : (kept.reader.load place.lsn).run s₁ = ((.error failure, r'), s')

/-- A delivery that fails goes well for some of the bytes, and then a sector cannot be loaded. -/
theorem deliver_brokenOff {d : Delivery} (hrun : (r.deliver want).run s = (d, s'))
    (hfailure : d.failure = some failure) :
    ∃ taken < want, ∃ kept s₁ place,
      r.BreaksOff s taken kept s₁ place failure d.reader s' ∧ d.bytes = kept.bytes := by
  induction want using Nat.strongRecOn generalizing r s d with
  | ind want ih =>
    by_cases hwant : want = 0
    · subst hwant
      rw [deliver_zero] at hrun
      cases hrun
      cases hfailure
    cases hplace : locate r.extents r.position with
    | none =>
      rw [deliver_end hplace] at hrun
      cases hrun
      cases hfailure
    | some place =>
      cases hload : (r.load place.lsn).run s with
      | mk result s₁ =>
        obtain ⟨outcome, r₁⟩ := result
        cases outcome with
        -- The first sector is the one that cannot be loaded.
        | error failure =>
          rw [deliver_failure hwant hplace hload] at hrun
          cases hrun
          cases hfailure
          exact ⟨0, Nat.pos_of_ne_zero hwant, _, s, place,
            ⟨deliver_zero, rfl, rfl, rfl, hplace, hload⟩, rfl⟩
        -- It is taken, and the delivery is broken off in what follows.
        | ok =>
          obtain ⟨-, hposition, hextents⟩ := load_ok hload
          have hpos := place.available_pos
          generalize htake : min place.available want = count at *
          cases hlater : ((r₁.seek (r₁.position + count)).deliver (want - count)).run s₁ with
          | mk later s₂ =>
            rw [deliver_place hwant hplace hload (by rw [htake]; exact hlater), htake] at hrun
            cases hrun
            obtain ⟨taken, hlt, kept, s₃, next, hbreaks, hbytes⟩ :=
              ih (want - count) (by omega) hlater hfailure
            have hfirst : (r.deliver count).run s = (⟨r₁.sector.slice place.inSector count, none,
                r₁.seek (r₁.position + count)⟩, s₁) := by
              have hcount : min place.available count = count := by omega
              rw [deliver_place (by omega) hplace hload
                (by rw [hcount, Nat.sub_self, deliver_zero]), hcount, List.append_nil]
            have hplaces := hbreaks.locate_eq
            rw [seek_extents, seek_position, hextents, hposition, Nat.add_assoc] at hplaces
            refine ⟨count + taken, by omega, _, s₃, next,
              ⟨deliver_add hfirst rfl hbreaks.run_eq, hbreaks.failure_eq, ?_, ?_, hplaces,
                hbreaks.load_eq⟩, by rw [hbytes]⟩
            · rw [hbreaks.position_eq, seek_position, hposition, Nat.add_assoc]
            · rw [hbreaks.extents_eq, seek_extents, hextents]

/-! ## Reads -/

/-- What the reader stands in front of after a failure: a place whose sector it does not have. -/
theorem BreaksOff.cached_ne {taken : Nat} {kept : Delivery}
    (h : r.BreaksOff s taken kept s₁ place failure r' s') : kept.reader.cached ≠ some place.lsn := by
  intro hcached
  have hload := (load_cached hcached).symm.trans h.load_eq
  cases hload

/-- Loading a sector that fails changes nothing about the reader but the bytes in the buffer. -/
theorem load_error {lsn : UInt32} (h : (r.load lsn).run s = ((.error failure, r₁), s₁)) :
    r₁.position = r.position ∧ r₁.extents = r.extents ∧ r₁.cached = r.cached := by
  by_cases hcached : r.cached = some lsn
  · rw [load_cached hcached] at h
    cases h
  · rw [load, if_neg hcached] at h
    cases hfill : (SectorSource.fillSector lsn r.sector).run s with
    | mk fill s' =>
      rw [run_stateBind hfill] at h
      obtain ⟨outcome, sector⟩ := fill
      cases outcome with
      | ok => cases h
      | error => cases h; exact ⟨rfl, rfl, rfl⟩

/-- A read goes well for the first `taken` bytes of the buffer, and then fails because the sector of
the next byte cannot be loaded. The reader stands in front of that byte, and the buffer holds what was
taken, and behind it what it held. -/
structure StopsAfter (r : FileReader) (s : SectorSource δ) (taken : Nat) (buffer : Bytes)
    (failure : Error) (bytes : Bytes) (r' : FileReader) (s' : SectorSource δ) : Prop where
  lt_length : taken < buffer.length
  position_eq : r'.position = r.position + taken
  extents_eq : r'.extents = r.extents
  exists_front : ∃ count front kept s₁ place,
    (r.read (buffer.take taken)).run s = ((.ok count, front, kept), s₁) ∧
    bytes = front ++ buffer.drop taken ∧
    locate r'.extents r'.position = some place ∧ r'.cached ≠ some place.lsn ∧
    (kept.load place.lsn).run s₁ = ((.error failure, r'), s')

/-- A read that fails stops after some of the bytes, at the first sector that cannot be loaded. -/
theorem stopsAfter_of_read (hread : (r.read buffer).run s = ((.error failure, bytes, r'), s')) :
    ∃ taken, r.StopsAfter s taken buffer failure bytes r' s' := by
  cases hrun : (r.deliver buffer.length).run s with
  | mk d s₁ =>
    rw [read, run_stateBind hrun] at hread
    cases hfailure : d.failure with
    | none =>
      rw [hfailure] at hread
      cases hread
    | some cause =>
      rw [hfailure] at hread
      cases hread
      obtain ⟨taken, hlt, kept, s₂, place, hbreaks, hbytes⟩ := deliver_brokenOff hrun hfailure
      obtain ⟨hposition, hextents, hcached⟩ := load_error hbreaks.load_eq
      have htaken : (buffer.take taken).length = taken := by
        rw [List.length_take, Nat.min_eq_left (Nat.le_of_lt hlt)]
      have hle : kept.bytes.length ≤ taken := length_deliver_le hbreaks.run_eq hbreaks.failure_eq
      have hfront : (r.read (buffer.take taken)).run s = _ :=
        read_of_deliver (by rw [htaken]; exact hbreaks.run_eq) hbreaks.failure_eq
      refine ⟨taken, hlt, hposition.trans hbreaks.position_eq, hextents.trans hbreaks.extents_eq, _, _,
        _, s₂, place, hfront, ?_, ?_, ?_, hbreaks.load_eq⟩
      · rw [List.append_assoc, hbytes,
          ← List.drop_append_of_le_length (by rw [htaken]; exact hle), List.take_append_drop,
          Bytes.put, List.take_zero, List.nil_append, Nat.zero_add]
      · rw [hposition, hextents, hbreaks.position_eq, hbreaks.extents_eq]
        exact hbreaks.locate_eq
      · rw [hcached]
        exact hbreaks.cached_ne

/-- The first sector is the one that cannot be loaded exactly if nothing is taken. -/
theorem StopsAfter.taken_eq_zero_iff {taken : Nat}
    (h : r.StopsAfter s taken buffer failure bytes r' s') :
    taken = 0 ↔ ∃ place cause, locate r.extents r.position = some place ∧
      ((r.load place.lsn).run s).1.1 = .error cause := by
  obtain ⟨count, front, kept, s₁, place, hfront, -, hplace, -, hload⟩ := h.exists_front
  constructor
  · rintro rfl
    rw [h.extents_eq, h.position_eq] at hplace
    have hnothing : (r.deliver (buffer.take 0).length).run s = (⟨[], none, r⟩, s) := deliver_zero
    obtain ⟨hresult, rfl⟩ := Prod.mk.inj ((read_of_deliver hnothing rfl).symm.trans hfront)
    cases hresult
    exact ⟨place, failure, hplace, by rw [hload]⟩
  · rintro ⟨first, cause, hfirst, herror⟩
    refine Decidable.byContradiction fun hne => ?_
    have hwant : (buffer.take taken).length ≠ 0 := by
      rw [List.length_take]
      have hlt := h.lt_length
      omega
    cases hrun : (r.load first.lsn).run s with
    | mk result s₂ =>
      obtain ⟨outcome, r₂⟩ := result
      rw [hrun] at herror
      obtain rfl : outcome = .error cause := herror
      rw [read, run_stateBind (deliver_failure hwant hfirst hrun)] at hfront
      cases hfront

/-- If anything is taken, then what there is of the first sector: a sector is taken whole or not at all.
-/
theorem StopsAfter.available_le {taken : Nat}
    (h : r.StopsAfter s taken buffer failure bytes r' s')
    (hplace : locate r.extents r.position = some place) (htaken : taken ≠ 0) :
    place.available ≤ taken := by
  refine Nat.le_of_not_lt fun hlt => ?_
  obtain ⟨count, front, kept, s₁, next, hfront, -, hnext, -, hload⟩ := h.exists_front
  -- The byte that cannot be had is in the sector that was loaded for the first.
  obtain ⟨later, hlater, hlsn, -, -⟩ := locate_add hplace hlt
  rw [h.extents_eq, h.position_eq, hlater] at hnext
  cases hnext
  obtain ⟨d, hrun, hnone, -, -, rfl⟩ := deliver_of_read hfront
  rw [List.length_take, Nat.min_eq_left (Nat.le_of_lt h.lt_length)] at hrun
  obtain ⟨r₁, s₂, hfirst⟩ : ∃ r₁ s₂, (r.load place.lsn).run s = ((.ok (), r₁), s₂) := by
    rcases deliver_cases hrun hnone with ⟨hend, -⟩ | ⟨_, r₁, s₂, _, -, hsame, hfirst, -⟩
    · rw [hplace] at hend
      exact absurd hend (by simp [htaken])
    · cases hplace.symm.trans hsame
      exact ⟨r₁, s₂, hfirst⟩
  have htake : min place.available taken = taken := Nat.min_eq_right (Nat.le_of_lt hlt)
  rw [deliver_place htaken hplace hfirst (by rw [htake, Nat.sub_self, deliver_zero])] at hrun
  cases hrun
  rw [load_cached (by rw [hlsn]; exact (load_ok hfirst).1)] at hload
  cases hload

/-! ## Reading on where a read stopped -/

/-- A reader that is ready for its sector is coherent when it has loaded it, and so can be relied on. -/
theorem Ready.load (hr : r.Ready image framing) (hs : s.Serves image framing)
    (hplace : locate r.extents r.position = some place) {sector : Bytes}
    (hsector : image.readSector framing place.lsn = .ok sector) :
    ∃ r₁ s₁, (r.load place.lsn).run s = ((.ok (), r₁), s₁) ∧ r₁.Coherent image framing ∧
      s₁.Serves image framing := by
  by_cases hcached : r.cached = some place.lsn
  · have hcoherent : r.Coherent image framing := by
      refine ⟨hr.length_eq, fun lsn hlsn => ?_⟩
      cases hcached.symm.trans hlsn
      exact hr.readSector_eq place hplace hcached
    exact ⟨r, s, load_cached hcached, hcoherent, hs⟩
  · obtain ⟨s₁, hload, hs₁⟩ := run_load hs hr.length_eq place.lsn
    rw [loaded, if_neg hcached, hsector] at hload
    refine ⟨_, s₁, hload, ⟨Image.length_of_readSector hsector, fun lsn hlsn => ?_⟩, hs₁⟩
    cases hlsn
    exact hsector

/-- A reader that is ready delivers the bytes of the file from its position on, as many as are wanted. -/
theorem Ready.run_deliver (hr : r.Ready image framing)
    (hfile : ∀ x ∈ r.extents, x.LiesIn image framing) (hs : s.Serves image framing) (want : Nat) :
    let bytes := (extentBytes image framing r.extents).slice r.position want
    ∃ r' s', (r.deliver want).run s = (⟨bytes, none, r'⟩, s') ∧
      r'.position = r.position + bytes.length := by
  by_cases hwant : want = 0
  · subst hwant
    exact ⟨r, s, deliver_zero, rfl⟩
  cases hplace : locate r.extents r.position with
  | none =>
    dsimp only
    rw [Bytes.slice_eq_nil (length_le_of_locate_eq_none hfile hplace)]
    exact ⟨r, s, deliver_end hplace, rfl⟩
  | some place =>
    obtain ⟨-, sector, hsector, -⟩ := locate_spec hfile hplace
    obtain ⟨r₁, s₁, hload, hr₁, hs₁⟩ := hr.load hs hplace hsector
    obtain ⟨-, hposition, hextents⟩ := load_ok hload
    obtain ⟨r', s', hrun, -, hstands, -⟩ :=
      FileReader.run_deliver (by rw [hextents]; exact hfile) hs₁ hr₁ want
    rw [hextents, hposition] at hrun hstands
    exact ⟨r', s', (deliver_of_load hwant hplace hload).trans hrun, hstands⟩

/-- The buffer of the reader keeps its length through any read, successful or not. -/
theorem length_sector_of_read (hs : s.Tells image framing leaves)
    (hlength : r.sector.length = sectorSize) {outcome : Except Error Nat}
    (hread : (r.read buffer).run s = ((outcome, bytes, r'), s')) :
    r'.sector.length = sectorSize := by
  have hkept := deliver_keeps
    (fun r s => s.Tells image framing leaves ∧ r.sector.length = sectorSize)
    (fun _ _ place h _ => load_keeps h.1 h.2 place.lsn) (fun _ _ _ h => h) ⟨hs, hlength⟩
    buffer.length
  have hreader : ((r.deliver buffer.length).run s).1.reader = r' :=
    congrArg (fun result => result.1.2.2) hread
  rw [← hreader]
  exact hkept.2

/-- What a reader takes that is ready are the bytes of the file, from where it stood to where it stops.
-/
theorem StopsAfter.bytes_eq {taken : Nat} (h : r.StopsAfter s taken buffer failure bytes r' s')
    (hs : s.Tells image framing leaves) (hr : r.Ready image framing)
    (hfile : ∀ x ∈ r.extents, x.LiesIn image framing) :
    bytes = (extentBytes image framing r.extents).slice r.position taken ++ buffer.drop taken := by
  obtain ⟨count, front, kept, s₁, place, hfront, rfl, -, -, hload⟩ := h.exists_front
  obtain ⟨-, hbytes, hposition, -⟩ := read_right hfile hs hr hfront
  obtain rfl : count = taken := by
    have hstands := (load_error hload).1
    rw [h.position_eq, hposition] at hstands
    omega
  rw [hbytes, List.drop_of_length_le (List.length_take_le _ _), List.append_nil]

/-- **A read that fails moves the reader over what it took.** It stays where it was exactly if the first
sector of the read is the one that cannot be loaded, so always if the read lies within one sector. On
any source that serves the file when the device has recovered, the next read gives the bytes from the
new position on: those that were taken are not given again. -/
theorem failed_read_moves (hread : (r.read buffer).run s = ((.error failure, bytes, r'), s')) :
    ∃ taken, r.StopsAfter s taken buffer failure bytes r' s' ∧
      (r'.position = r.position ↔ ∃ place cause, locate r.extents r.position = some place ∧
        ((r.load place.lsn).run s).1.1 = .error cause) ∧
      (∀ place, locate r.extents r.position = some place → buffer.length ≤ place.available →
        r'.position = r.position) ∧
      ∀ image framing leaves, s.Tells image framing leaves → r.sector.length = sectorSize →
        (∀ x ∈ r.extents, x.LiesIn image framing) →
        let content := extentBytes image framing r.extents
        (r.Ready image framing → bytes = content.slice r.position taken ++ buffer.drop taken) ∧
        ∀ t : SectorSource δ, t.Serves image framing → ∀ again,
          let expected := answer content (r.position + taken) (.read again)
          ∃ r₂ t', (perform (.read again) r').run t = ((expected.1, r₂), t') ∧
            r₂.position = expected.2 := by
  obtain ⟨taken, hstops⟩ := stopsAfter_of_read hread
  have hstays : r'.position = r.position ↔ taken = 0 := by
    rw [hstops.position_eq]
    omega
  refine ⟨taken, hstops, hstays.trans hstops.taken_eq_zero_iff, fun place hplace hfits => ?_, ?_⟩
  · refine hstays.mpr (Decidable.byContradiction fun htaken => ?_)
    have havailable := hstops.available_le hplace htaken
    have hlt := hstops.lt_length
    omega
  · intro image framing leaves hs hlength hfile content
    refine ⟨fun hr => hstops.bytes_eq hs hr hfile, fun t ht again => ?_⟩
    obtain ⟨_, _, _, _, place, -, -, hplace, hcached, -⟩ := hstops.exists_front
    have hready : r'.Ready image framing := by
      refine ⟨length_sector_of_read hs hlength hread, fun here hhere hsame => ?_⟩
      cases hplace.symm.trans hhere
      exact absurd hsame hcached
    obtain ⟨r₂, t', hrun, hposition⟩ :=
      hready.run_deliver (by rw [hstops.extents_eq]; exact hfile) ht again.length
    rw [hstops.extents_eq, hstops.position_eq] at hrun hposition
    refine ⟨r₂, t', perform_read_of_deliver hrun, ?_⟩
    rw [hposition, Bytes.length_slice_eq_min]
    rfl

/-! ### A boundary with a bad block behind it -/

section Around

variable {bad : Nat → Prop} {count : Except String UInt64} {lsn : UInt32}

/-- A sector that is to be had is loaded, and the buffer then holds it. -/
theorem load_of_isSector (hs : s.ReadsAround image bad count framing)
    (hlength : r.sector.length = sectorSize) (hcached : r.cached ≠ some lsn) {sector : Bytes}
    (hsector : image.IsSector bad count framing lsn sector) :
    ∃ s', (r.load lsn).run s = ((.ok (), { r with sector, cached := some lsn }), s') ∧
      s'.ReadsAround image bad count framing := by
  obtain ⟨⟨outcome, left⟩, s', hfill, hs', hgives⟩ := hs.run_fillSector lsn hlength
  obtain ⟨hok, hleft⟩ := (hgives sector).mpr hsector
  obtain rfl : outcome = .ok () := hok
  obtain rfl : left = sector := hleft
  exact ⟨s', by rw [load, if_neg hcached, run_stateBind hfill]; rfl, hs'⟩

/-- A sector that is not to be had is not loaded: the load fails, whatever it leaves in the buffer. -/
theorem load_of_not_isSector (hs : s.ReadsAround image bad count framing)
    (hlength : r.sector.length = sectorSize) (hcached : r.cached ≠ some lsn)
    (hsector : ∀ sector, ¬ image.IsSector bad count framing lsn sector) :
    ∃ failure r' s', (r.load lsn).run s = ((.error failure, r'), s') := by
  obtain ⟨⟨outcome, left⟩, s', hfill, -, hgives⟩ := hs.run_fillSector lsn hlength
  cases outcome with
  | ok => exact absurd ((hgives left).mp ⟨rfl, rfl⟩) (hsector left)
  | error failure =>
    exact ⟨failure, _, s', by rw [load, if_neg hcached, run_stateBind hfill]; rfl⟩

/-- A read from a sector that is to be had into one that is not takes the bytes of the first and
fails. -/
theorem read_across {next : FilePlace} {sector : Bytes}
    (hs : s.ReadsAround image bad count framing) (hlength : r.sector.length = sectorSize)
    (hplace : locate r.extents r.position = some place) (hcached : r.cached ≠ some place.lsn)
    (hnext : locate r.extents (r.position + place.available) = some next)
    (hother : next.lsn ≠ place.lsn) (hwant : place.available < buffer.length)
    (hsector : image.IsSector bad count framing place.lsn sector)
    (hmissing : ∀ sector, ¬ image.IsSector bad count framing next.lsn sector) :
    ∃ failure r' s', (r.read buffer).run s = ((.error failure,
        buffer.put 0 (sector.slice place.inSector place.available), r'), s') ∧
      r'.position = r.position + place.available := by
  obtain ⟨s₁, hload, hs₁⟩ := load_of_isSector hs hlength hcached hsector
  let kept : FileReader :=
    { r with sector, cached := some place.lsn, position := r.position + place.available }
  obtain ⟨failure, r', s', hfails⟩ := load_of_not_isSector (r := kept) hs₁
    hsector.length_eq (fun h => hother (Option.some.inj h).symm) hmissing
  refine ⟨failure, r', s', ?_, (load_error hfails).1⟩
  have htake : min place.available buffer.length = place.available :=
    Nat.min_eq_left (Nat.le_of_lt hwant)
  have hrest : buffer.length - place.available ≠ 0 := by omega
  have hlater : (kept.deliver (buffer.length - place.available)).run s₁ =
      (⟨[], some failure, r'⟩, s') := deliver_failure hrest hnext hfails
  have hrun := deliver_place (Nat.ne_of_gt (Nat.zero_lt_of_lt hwant)) hplace hload
    (by rw [htake]; exact hlater)
  rw [read, run_stateBind hrun, htake, List.append_nil]
  rfl

end Around

/-- Two sectors of zeros, but for the two bytes around the boundary. -/
def boundary : Bytes := Bytes.zeros 2047 ++ [0x41, 0x42] ++ Bytes.zeros 2047

theorem length_boundary : boundary.length = 4096 := by
  simp [boundary]

def boundaryImage : Image := .inSectors boundary

theorem blockSize_boundary_pos : 0 < UInt32.toNat 2048 := by decide

theorem dvd_length_boundary : UInt32.toNat 2048 ∣ boundary.length := by
  rw [length_boundary]
  decide

/-- A device with the image that cannot read the second block. -/
def boundaryDevice : MemoryDevice := .withBadBlock 2048 boundary 1

/-- A read of the two bytes takes the first of them, which is in the sector that can be read. -/
theorem read_boundary :
    ∃ failure r' s', (((ofEntry bothSectors).seek 2047).read [0xEE, 0xEE]).run
        (.ofDevice boundaryDevice) = ((.error failure, [0x41, 0xEE], r'), s') ∧
      r'.position = 2048 := by
  obtain ⟨place, next, hplace, hnext, hlsn, hlsn', hinSector, havailable⟩ :
      ∃ place next : FilePlace, locate bothSectors.extents 2047 = some place ∧
        locate bothSectors.extents 2048 = some next ∧ place.lsn = 0 ∧ next.lsn = 1 ∧
        place.inSector = 2047 ∧ place.available = 1 := by
    refine ⟨_, _, rfl, rfl, ?_⟩
    decide
  have hheld : boundaryImage.HeldAround (· ∈ [1]) (.ok 2) boundaryDevice := by
    have hheld := MemoryDevice.heldAround_withBadBlock blockSize_boundary_pos dvd_length_boundary 1
    rwa [length_boundary] at hheld
  have hsector : boundaryImage.IsSector (· ∈ [1]) (.ok 2) .standard place.lsn
      (boundaryImage.bytes.slice 0 sectorSize) := by
    refine ⟨0, by rw [hlsn]; rfl, ⟨⟨4096, ⟨2, rfl, rfl⟩, by decide⟩, fun block hstart _ => ?_⟩, rfl⟩
    have hsize : boundaryImage.blockSize = sectorSize := rfl
    have hblock : block = 0 := by
      rw [hsize] at hstart
      dsimp only [sectorSize] at hstart
      omega
    rw [hblock]
    exact ⟨by decide +kernel, by decide⟩
  have hmissing (sector : Bytes) :
      ¬ boundaryImage.IsSector (· ∈ [1]) (.ok 2) .standard next.lsn sector :=
    Image.not_isSector_of_bad (by rw [hlsn']; rfl) (List.mem_singleton_self 1) (by decide)
      (by decide)
  have hbyte : (boundaryImage.bytes.slice 0 sectorSize).slice 2047 1 = [0x41] := by decide +kernel
  have hs := SectorSource.readsAround_ofDevice hheld .standard
  have hlength : ((ofEntry bothSectors).seek 2047).sector.length = sectorSize :=
    Bytes.length_zeros _
  obtain ⟨failure, r', s', hread, hposition⟩ := read_across hs hlength hplace (nomatch ·)
    (by rw [havailable]; exact hnext) (by rw [hlsn, hlsn']; decide)
    (show place.available < [0xEE, 0xEE].length by rw [havailable]; decide) hsector hmissing
  rw [hinSector, havailable, hbyte] at hread
  rw [havailable] at hposition
  exact ⟨failure, r', s', hread, hposition⟩

/-- When the device has recovered, the read gives the second of the bytes and the one behind it. -/
theorem failed_read_moves_boundary :
    ∃ failure r' s', (((ofEntry bothSectors).seek 2047).read [0xEE, 0xEE]).run
        (.ofDevice boundaryDevice) = ((.error failure, [0x41, 0xEE], r'), s') ∧
      ∃ r₂ t', (perform (.read [0xEE, 0xEE]) r').run (.ofDevice (MemoryDevice.ofBytes 2048 boundary)) =
        ((some (.ok 2, [0x42, 0x00]), r₂), t') := by
  obtain ⟨failure, r', s', hread, hposition⟩ := read_boundary
  obtain ⟨taken, hstops, -, -, hagain⟩ := failed_read_moves hread
  have htaken : taken = 1 := by
    have hmoved : r'.position = 2047 + taken := hstops.position_eq
    omega
  have htold : boundaryImage.ToldBy (fun before after => after = before) boundaryDevice := by
    have himage : boundaryDevice.image blockSize_boundary_pos = boundaryImage :=
      MemoryDevice.image_withBadBlock _ dvd_length_boundary 1
    rw [← himage]
    exact MemoryDevice.toldBy_image _
  have hheld : boundaryImage.HeldBy (MemoryDevice.ofBytes 2048 boundary) :=
    MemoryDevice.heldBy_ofBytes rfl dvd_length_boundary
      (Nat.lt_of_le_of_lt (Nat.le_of_eq length_boundary) (by decide))
  have hfile : ∀ x ∈ bothSectors.extents, x.LiesIn boundaryImage .standard := by decide +kernel
  have hexpected : (answer (extentBytes boundaryImage .standard bothSectors.extents) 2048
      (.read [0xEE, 0xEE])).1 = some (.ok 2, [0x42, 0x00]) := by decide +kernel
  obtain ⟨-, hnext⟩ := hagain _ _ _ (SectorSource.tells_ofDevice htold .standard)
    (Bytes.length_zeros _) hfile
  obtain ⟨r₂, t', hrun, -⟩ := hnext _ (SectorSource.serves_ofDevice hheld .standard) [0xEE, 0xEE]
  rw [htaken] at hrun
  exact ⟨failure, r', s', hread, r₂, t', hrun.trans (by rw [← hexpected]; rfl)⟩

/-- The reader is not where it was before it failed: it has moved by the byte that it took. -/
theorem read_moved_boundary :
    ∃ failure r' s', (((ofEntry bothSectors).seek 2047).read [0xEE, 0xEE]).run
        (.ofDevice boundaryDevice) = ((.error failure, [0x41, 0xEE], r'), s') ∧
      r'.position ≠ ((ofEntry bothSectors).seek 2047).position := by
  obtain ⟨failure, r', s', hread, hposition⟩ := read_boundary
  refine ⟨failure, r', s', hread, ?_⟩
  rw [hposition]
  decide

end Ecma119.FileReader
