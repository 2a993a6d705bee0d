import Ecma119.File
import Ecma119.Proofs.Source.Serving

/-!
# What a reader delivers

The steps of a delivery: it ends at once where nothing is wanted, at the end of the file and where a
sector cannot be loaded; otherwise it delivers what there is of one sector and goes on behind that.
`deliver_cases` says that these are all. `deliver_add` follows: a delivery may be cut in two anywhere, and
no device can tell.
-/

namespace Ecma119

variable {δ : Type} [BlockDevice δ]

/-! ## Places -/

/-- Further on in the same sector there is less available, and the sector is the same one. -/
theorem locate_add {extents : List Extent} {position count : Nat} {place : FilePlace}
    (h : locate extents position = some place) (hlt : count < place.available) :
    ∃ later : FilePlace, locate extents (position + count) = some later ∧
      later.lsn = place.lsn ∧ later.inSector = place.inSector + count ∧
      later.available = place.available - count := by
  induction extents generalizing position with
  | nil => cases h
  | cons x rest ih =>
    rw [locate] at h ⊢
    split at h
    · next hinside =>
      cases h
      dsimp only [sectorSize] at hlt ⊢
      have hinside' : position + count < x.size.toNat := by omega
      have hsector : (position + count) / 2048 = position / 2048 := by omega
      rw [dif_pos hinside']
      refine ⟨_, rfl, by rw [hsector], by dsimp only; omega, by dsimp only; omega⟩
    · next hpast =>
      have hpast' : ¬ position + count < x.size.toNat := by omega
      rw [dif_neg hpast', show position + count - x.size.toNat = position - x.size.toNat + count by
        omega]
      exact ih h

namespace FileReader

variable {s s₁ s₂ : SectorSource δ} {r r₁ : FileReader} {want : Nat}

@[simp] theorem seek_extents (position : Nat) : (r.seek position).extents = r.extents := rfl

@[simp] theorem seek_position (position : Nat) : (r.seek position).position = position := rfl

/-- Seeking does not touch the buffer, which goes on holding the sector that was read last. -/
@[simp] theorem seek_sector (position : Nat) : (r.seek position).sector = r.sector := rfl

/-! ## Steps -/

/-- Where nothing is wanted, nothing is delivered and the source is left alone. -/
theorem deliver_zero : (r.deliver 0).run s = (⟨[], none, r⟩, s) := by
  rw [deliver]
  rfl

/-- At the end of the file nothing is delivered, which is no failure, and nothing is read. -/
theorem deliver_end (hplace : locate r.extents r.position = none) :
    (r.deliver want).run s = (⟨[], none, r⟩, s) := by
  rw [deliver.eq_def, hplace]
  split <;> rfl

/-- A sector that cannot be loaded ends the delivery with that failure and with no bytes of the sector.
-/
theorem deliver_failure {place : FilePlace} {failure : Error} (hwant : want ≠ 0)
    (hplace : locate r.extents r.position = some place)
    (hload : (r.load place.lsn).run s = ((.error failure, r₁), s₁)) :
    (r.deliver want).run s = (⟨[], some failure, r₁⟩, s₁) := by
  rw [deliver.eq_def, if_neg hwant, hplace]
  dsimp only
  rw [run_stateBind hload]
  rfl

/-- Where a sector can be loaded, the delivery goes on behind what it takes from it. -/
theorem deliver_place {place : FilePlace} {later : Delivery} (hwant : want ≠ 0)
    (hplace : locate r.extents r.position = some place)
    (hload : (r.load place.lsn).run s = ((.ok (), r₁), s₁))
    (hlater : ((r₁.seek (r₁.position + min place.available want)).deliver
      (want - min place.available want)).run s₁ = (later, s₂)) :
    (r.deliver want).run s =
      ({ later with
          bytes := r₁.sector.slice place.inSector (min place.available want) ++ later.bytes },
        s₂) := by
  rw [deliver.eq_def, if_neg hwant, hplace]
  dsimp only
  rw [run_stateBind hload]
  dsimp only
  rw [run_stateBind hlater]
  rfl

/-- A delivery without a failure has nothing to deliver, or takes what it can from one sector and goes on
behind that. -/
theorem deliver_cases {d : Delivery} (hrun : (r.deliver want).run s = (d, s₂))
    (hnone : d.failure = none) :
    ((want = 0 ∨ locate r.extents r.position = none) ∧ d = ⟨[], none, r⟩ ∧ s₂ = s) ∨
    ∃ place r₁ s₁ later, want ≠ 0 ∧ locate r.extents r.position = some place ∧
      (r.load place.lsn).run s = ((.ok (), r₁), s₁) ∧
      ((r₁.seek (r₁.position + min place.available want)).deliver
        (want - min place.available want)).run s₁ = (later, s₂) ∧
      later.failure = none ∧
      d = { later with
        bytes := r₁.sector.slice place.inSector (min place.available want) ++ later.bytes } := by
  by_cases hwant : want = 0
  · subst hwant
    rw [deliver_zero] at hrun
    cases hrun
    exact .inl ⟨.inl rfl, rfl, rfl⟩
  cases hplace : locate r.extents r.position with
  | none =>
    rw [deliver_end hplace] at hrun
    cases hrun
    exact .inl ⟨.inr rfl, rfl, rfl⟩
  | some place =>
    cases hload : (r.load place.lsn).run s with
    | mk result s₁ =>
      obtain ⟨outcome, r₁⟩ := result
      cases outcome with
      -- The delivery would have ended with this failure.
      | error failure =>
        rw [deliver_failure hwant hplace hload] at hrun
        cases hrun
        cases hnone
      | ok =>
        cases hlater : ((r₁.seek (r₁.position + min place.available want)).deliver
            (want - min place.available want)).run s₁ with
        | mk later s' =>
          rw [deliver_place hwant hplace hload hlater] at hrun
          cases hrun
          exact .inr ⟨place, r₁, s₁, later, hwant, rfl, hload, hlater, hnone, rfl⟩

/-- A read whose sector cannot be loaded delivers nothing, and leaves what the failure left. -/
theorem read_failure {place : FilePlace} {buffer left : Bytes} {failure : Error} (hne : buffer ≠ [])
    (hplace : locate r.extents r.position = some place) (hcached : r.cached ≠ some place.lsn)
    (hfill : (SectorSource.fillSector place.lsn r.sector).run s = (⟨.error failure, left⟩, s')) :
    (r.read buffer).run s = ((.error failure, buffer, { r with sector := left }), s') := by
  have hwant : buffer.length ≠ 0 := fun h => hne (List.length_eq_zero_iff.mp h)
  have hload : (r.load place.lsn).run s = ((.error failure, { r with sector := left }), s') := by
    rw [load, if_neg hcached, run_stateBind hfill]
    rfl
  rw [read, run_stateBind (deliver_failure hwant hplace hload)]
  rfl

/-- A read puts what is delivered in front of what the buffer held, also if the delivery ends in a
failure. -/
theorem read_of_deliver {buffer : Bytes} {d : Delivery}
    (hrun : (r.deliver buffer.length).run s = (d, s₁)) (hnone : d.failure = none) :
    (r.read buffer).run s =
      ((.ok d.bytes.length, d.bytes ++ buffer.drop d.bytes.length, d.reader), s₁) := by
  rw [read, run_stateBind hrun, hnone]
  simp only [Bytes.put, List.take_zero, List.nil_append, Nat.zero_add]
  rfl

/-- Loading a sector that was loaded last does nothing, as the buffer is taken to hold it. -/
theorem load_cached {lsn : UInt32} (h : r.cached = some lsn) :
    (r.load lsn).run s = ((.ok (), r), s) := by
  rw [load, if_pos h]
  rfl

/-- A loaded sector is kept with its number, and nothing else about the reader changes. -/
theorem load_ok {lsn : UInt32} (h : (r.load lsn).run s = ((.ok (), r₁), s₁)) :
    r₁.cached = some lsn ∧ r₁.position = r.position ∧ r₁.extents = r.extents := by
  by_cases hcached : r.cached = some lsn
  · rw [load_cached hcached] at h
    cases h
    exact ⟨hcached, rfl, rfl⟩
  · rw [load, if_neg hcached] at h
    cases hfill : (SectorSource.fillSector lsn r.sector).run s with
    | mk fill s' =>
      rw [run_stateBind hfill] at h
      obtain ⟨outcome, sector⟩ := fill
      cases outcome with
      | ok => cases h; exact ⟨rfl, rfl, rfl⟩
      | error => cases h

/-- What loading a sector comes to where sectors are what `sectors` tells. -/
def loaded (sectors : UInt32 → Except Error Bytes) (r : FileReader) (lsn : UInt32) :
    Except Error Unit × FileReader :=
  if r.cached = some lsn then (.ok (), r)
  else
    match sectors lsn with
    | .ok sector => (.ok (), { r with sector, cached := some lsn })
    | .error failure => (.error failure, r)

/-- On a source that serves an image, sectors are those of the image, and are loaded if these can be
read. -/
theorem run_load {image : Image} {framing : Framing} (hs : s.Serves image framing)
    (hlength : r.sector.length = sectorSize) (lsn : UInt32) :
    ∃ s', (r.load lsn).run s = (r.loaded (image.readSector framing) lsn, s') ∧
      s'.Serves image framing := by
  rw [loaded]
  by_cases hcached : r.cached = some lsn
  · rw [if_pos hcached]
    exact ⟨s, load_cached hcached, hs⟩
  · rw [if_neg hcached, load, if_neg hcached]
    obtain ⟨s', hfill, hs'⟩ := SectorSource.run_fillSector hs lsn hlength
    rw [run_stateBind hfill]
    cases image.readSector framing lsn with
    | ok sector => exact ⟨s', rfl, hs'⟩
    | error failure => exact ⟨s', rfl, hs'⟩

/-! ## A delivery in two parts -/

/-- A delivery that ends within a sector has no need to load that sector again when it is taken up. -/
private theorem deliver_within {place : FilePlace} {m n : Nat} {d' : Delivery} {s' : SectorSource δ}
    (hm : m ≠ 0) (hplace : locate r.extents r.position = some place)
    (hload : (r.load place.lsn).run s = ((.ok (), r₁), s')) (hlt : m < place.available)
    (hsecond : ((r₁.seek (r₁.position + m)).deliver n).run s' = (d', s₂)) :
    (r.deliver (m + n)).run s =
      (⟨r₁.sector.slice place.inSector m ++ d'.bytes, d'.failure, d'.reader⟩, s₂) := by
  obtain ⟨hcached, hposition, hextents⟩ := load_ok hload
  by_cases hn : n = 0
  · subst hn
    rw [deliver_zero] at hsecond
    cases hsecond
    have htake : min place.available m = m := Nat.min_eq_right (by omega)
    rw [Nat.add_zero, deliver_place hm hplace hload (by rw [htake, Nat.sub_self, deliver_zero]),
      htake]
  · obtain ⟨place', hplace', hlsn, hinSector, havailable⟩ := locate_add hplace hlt
    rw [← hposition, ← hextents] at hplace'
    have hload' : ((r₁.seek (r₁.position + m)).load place'.lsn).run s' =
        ((.ok (), r₁.seek (r₁.position + m)), s') :=
      load_cached (by rw [hlsn]; exact hcached)
    cases hlater : ((r₁.seek (r₁.position + m + min place'.available n)).deliver
        (n - min place'.available n)).run s' with
    | mk later s'' =>
      rw [deliver_place hn hplace' hload' hlater] at hsecond
      cases hsecond
      have htake : min place.available (m + n) = m + min place'.available n := by omega
      have hrest : m + n - (m + min place'.available n) = n - min place'.available n := by omega
      rw [deliver_place (by omega) hplace hload (by
        rw [htake, hrest, ← Nat.add_assoc]
        exact hlater), htake, Bytes.slice_add, hinSector, List.append_assoc]
      rfl

/-- Delivering in two parts is delivering at once: the bytes, the reader, and what becomes of the source
are the same. -/
theorem deliver_add {m n : Nat} {d d' : Delivery} (hfirst : (r.deliver m).run s = (d, s₁))
    (hnone : d.failure = none) (hsecond : (d.reader.deliver n).run s₁ = (d', s₂)) :
    (r.deliver (m + n)).run s = (⟨d.bytes ++ d'.bytes, d'.failure, d'.reader⟩, s₂) := by
  induction m using Nat.strongRecOn generalizing r s d with
  | ind m ih =>
    rcases deliver_cases hfirst hnone with ⟨hend, rfl, rfl⟩ |
      ⟨place, r₁, s', later, hm, hplace, hload, hlater, hlast, rfl⟩
    · rcases hend with rfl | hplace
      · rw [Nat.zero_add, hsecond, List.nil_append]
      · rw [deliver_end hplace] at hsecond ⊢
        cases hsecond
        rfl
    · have hpos := place.available_pos
      by_cases hfits : place.available ≤ m
      -- The first part takes all there is of the sector, and so does the delivery at once.
      · rw [Nat.min_eq_left hfits] at hlater ⊢
        have hrest := ih (m - place.available) (by omega) hlater hlast hsecond
        rw [← Nat.sub_add_comm hfits] at hrest
        have htake : min place.available (m + n) = place.available := by omega
        rw [deliver_place (by omega) hplace hload (by rw [htake]; exact hrest), htake,
          List.append_assoc]
      -- The cut falls into the sector, which the second part has no need to load again.
      · rw [Nat.min_eq_right (by omega), Nat.sub_self, deliver_zero] at hlater
        cases hlater
        rw [Nat.min_eq_right (by omega)] at hsecond ⊢
        rw [List.append_nil]
        exact deliver_within hm hplace hload (by omega) hsecond

end FileReader

end Ecma119
