import Ecma119.Proofs.File.Delivery
import Ecma119.Proofs.Source.Following

/-!
# Reading a file from two sources

If every sector that can be read in one image is the same in another, a file that can be read from a
source of the one reads the same from a source of the other. Nothing is said of a file that cannot.
-/

namespace Ecma119

variable {δ ε : Type} [BlockDevice δ] [BlockDevice ε] {image image' : Image}
variable {framing framing' : Framing} {s s' : SectorSource δ} {t : SectorSource ε}

namespace FileReader

variable {r r₁ : FileReader}

/-- A sector that can be loaded is the same on both sides, and fills the buffer. -/
theorem load_follows (hcarry : SectorsCarryOver image image' framing framing')
    (hboth : BothServe image image' framing framing' s t) (hlength : r.sector.length = sectorSize)
    {lsn : UInt32} (hload : (r.load lsn).run s = ((.ok (), r₁), s')) :
    r₁.sector.length = sectorSize ∧
      ∃ t', (r.load lsn).run t = ((.ok (), r₁), t') ∧
        BothServe image image' framing framing' s' t' := by
  obtain ⟨hs, ht⟩ := hboth
  obtain ⟨s₁, hrun, hs₁⟩ := run_load hs hlength lsn
  obtain ⟨t₁, hrun', ht₁⟩ := run_load ht hlength lsn
  rw [hrun] at hload
  rw [hrun']
  by_cases hcached : r.cached = some lsn
  · rw [loaded, if_pos hcached] at hload ⊢
    cases hload
    exact ⟨hlength, t₁, rfl, hs₁, ht₁⟩
  · rw [loaded, if_neg hcached] at hload ⊢
    cases hsector : image.readSector framing lsn with
    | error failure =>
      rw [hsector] at hload
      cases hload
    | ok sector =>
      rw [hsector] at hload
      cases hload
      rw [hcarry lsn sector hsector]
      exact ⟨Image.length_of_readSector hsector, t₁, rfl, hs₁, ht₁⟩

/-- A delivery without a failure is the same on both sides. The induction is on how much is wanted. -/
theorem deliver_follows (hcarry : SectorsCarryOver image image' framing framing')
    (hboth : BothServe image image' framing framing' s t) (hlength : r.sector.length = sectorSize)
    {want : Nat} {d : Delivery} (hrun : (r.deliver want).run s = (d, s'))
    (hnone : d.failure = none) :
    ∃ t', (r.deliver want).run t = (d, t') ∧ BothServe image image' framing framing' s' t' := by
  induction want using Nat.strongRecOn generalizing r s t d with
  | ind want ih =>
    rcases deliver_cases hrun hnone with ⟨hend, rfl, rfl⟩ |
      ⟨place, r₁, s₁, later, hwant, hplace, hload, hlater, hlast, rfl⟩
    · rcases hend with rfl | hplace
      · exact ⟨t, deliver_zero, hboth⟩
      · exact ⟨t, deliver_end hplace, hboth⟩
    · obtain ⟨hlength₁, t₁, hload', hboth₁⟩ := load_follows hcarry hboth hlength hload
      have hpos := place.available_pos
      obtain ⟨t₂, hlater', hboth₂⟩ := ih (want - min place.available want) (by omega) hboth₁
        (by rw [seek_sector]; exact hlength₁) hlater hlast
      exact ⟨t₂, deliver_place hwant hplace hload' hlater', hboth₂⟩

/-- A reading without a failure is the same on both sides, in its count, its bytes and the reader. -/
theorem read_follows (hcarry : SectorsCarryOver image image' framing framing')
    (hboth : BothServe image image' framing framing' s t) (hlength : r.sector.length = sectorSize)
    {buffer bytes : Bytes} {count : Nat}
    (hrun : (r.read buffer).run s = ((.ok count, bytes, r₁), s')) :
    ∃ t', (r.read buffer).run t = ((.ok count, bytes, r₁), t') ∧
      BothServe image image' framing framing' s' t' := by
  cases hdeliver : (r.deliver buffer.length).run s with
  | mk d s₁ =>
    rw [read, run_stateBind hdeliver] at hrun
    cases hfailure : d.failure with
    | some failure =>
      rw [hfailure] at hrun
      cases hrun
    | none =>
      obtain ⟨t', hdeliver', hboth'⟩ := deliver_follows hcarry hboth hlength hdeliver hfailure
      rw [hfailure] at hrun
      cases hrun
      refine ⟨t', ?_, hboth'⟩
      rw [read, run_stateBind hdeliver', hfailure]
      rfl

end FileReader

namespace Entry

variable {file : Entry}

/-- A file that can be read into a buffer reads the same on both sides, up to its size. -/
theorem readInto_follows (hcarry : SectorsCarryOver image image' framing framing')
    (hboth : BothServe image image' framing framing' s t) {buffer bytes : Bytes} {count : Nat}
    (hrun : (file.readInto buffer).run s = ((.ok count, bytes), s')) :
    ∃ t', (file.readInto buffer).run t = ((.ok count, bytes), t') ∧
      BothServe image image' framing framing' s' t' := by
  rw [readInto] at hrun ⊢
  by_cases hfits : buffer.length < file.size
  · rw [if_pos hfits] at hrun
    cases hrun
  · rw [if_neg hfits] at hrun ⊢
    cases hread : ((FileReader.ofEntry file).read (buffer.take file.size)).run s with
    | mk result s₁ =>
      obtain ⟨outcome, content, r⟩ := result
      rw [run_stateBind hread] at hrun
      cases outcome with
      | error failure => cases hrun
      | ok delivered =>
        obtain ⟨t₁, hread', hboth₁⟩ :=
          FileReader.read_follows hcarry hboth (Bytes.length_zeros _) hread
        rw [run_stateBind hread']
        dsimp only at hrun ⊢
        split at hrun
        · next hwhole =>
          rw [if_pos hwhole]
          cases hrun
          exact ⟨t₁, rfl, hboth₁⟩
        · cases hrun

/-- A file that can be read reads the same on both sides, if the second image is no shorter. -/
theorem content_follows (hcarry : SectorsCarryOver image image' framing framing')
    (hlength : image.bytes.length ≤ image'.bytes.length) :
    Follows (BothServe image image' framing framing') (fun _ => False)
      (file.content : SourceM δ Bytes) (file.content : SourceM ε Bytes) := by
  rintro s t ⟨hs, ht⟩ result s' hrun hcarried
  obtain ⟨s₁, hbytes, hs₁⟩ := SectorSource.yields_byteLength s hs
  obtain ⟨t₁, hbytes', ht₁⟩ := SectorSource.yields_byteLength t ht
  rw [content, run_bind_ok hbytes, hs.toNat_length] at hrun
  rw [content, run_bind_ok hbytes', ht.toNat_length]
  by_cases hshort : image.bytes.length < file.size
  · rw [if_pos hshort, run_bind_error (run_throw _)] at hrun
    cases hrun
    exact hcarried.elim
  · rw [if_neg hshort] at hrun
    rw [if_neg (by omega)]
    cases hinto : (file.readInto (Bytes.zeros file.size)).run s₁ with
    | mk outcome s₂ =>
      obtain ⟨count, bytes⟩ := outcome
      rw [run_bind_ok (run_liftState hinto)] at hrun
      cases count with
      | error failure =>
        cases hrun
        exact hcarried.elim
      | ok count =>
        obtain ⟨t₂, hinto', hboth₂⟩ := readInto_follows hcarry ⟨hs₁, ht₁⟩ hinto
        rw [run_bind_ok (run_liftState hinto')]
        cases hrun
        exact ⟨t₂, rfl, hboth₂⟩

end Entry

end Ecma119
