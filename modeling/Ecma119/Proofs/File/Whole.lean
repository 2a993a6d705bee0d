import Ecma119.Proofs.File.AtOnce
import Ecma119.Proofs.File.Cut
import Ecma119.Proofs.File.Stream

/-!
# Files read whole

A file is read whole sector by sector; its extents can also be read at once, one after the other.
`readExtents` is the second way, and the two come to the same. A reading that succeeds has loaded
every sector that has one of the bytes, and so has all of them in the image; that its size is right
follows from what is delivered then. Where the size of a file is less than its extents hold, this is
said of the extents cut to the size.
-/

namespace Ecma119

variable {δ : Type} [BlockDevice δ] {image : Image} {framing : Framing} {s s' : SectorSource δ}

/-! ## Files -/

namespace Entry

variable {file : Entry} {buffer bytes : Bytes} {count : Nat}

/-- Where the extents of a file lie in the image, its bytes are read up to its size. There have to
be as many. -/
theorem run_readInto (file : Entry) (hs : s.Serves image framing)
    (h : ∀ x ∈ file.extents, x.LiesIn image framing) (hfits : file.size ≤ buffer.length) :
    let bytes := (file.bytesIn image framing).take file.size
    ∃ s', (file.readInto buffer).run s =
      ((if file.size ≤ totalSize file.extents then .ok file.size
        else .error (.format .truncatedRecord), bytes ++ buffer.drop bytes.length), s') := by
  intro bytes
  obtain ⟨r', s', hdeliver, -⟩ :=
    FileReader.run_deliver h hs (FileReader.coherent_ofEntry file) file.size
  have hlength : bytes.length = min file.size (totalSize file.extents) := by
    rw [← length_extentBytes h]
    exact List.length_take
  have hrest : bytes.length ≤ (buffer.take file.size).length := by
    rw [List.length_take_of_le hfits, hlength]
    exact Nat.min_le_left _ _
  have hwritten : Bytes.put (buffer.take file.size) 0 bytes ++ buffer.drop file.size =
      bytes ++ buffer.drop bytes.length := by
    rw [Bytes.put, List.take_zero, List.nil_append, Nat.zero_add, List.append_assoc,
      ← List.drop_append_of_le_length hrest, List.take_append_drop]
  have hwhole : bytes.length = file.size ↔ file.size ≤ totalSize file.extents := by omega
  refine ⟨s', (readInto_of_deliver file hfits hdeliver).trans ?_⟩
  show ((if bytes.length = file.size then _ else _,
    Bytes.put (buffer.take file.size) 0 bytes ++ buffer.drop file.size), s') = _
  rw [hwritten]
  simp only [hwhole]

/-- A reading that succeeds has had the extents in the image, as far as the size goes. -/
theorem liesIn_of_readInto (hs : s.Serves image framing)
    (hlast : ∀ x ∈ file.extents, x.endLsn ≤ 2 ^ 32)
    (h : ((file.readInto buffer).run s).1 = (.ok count, bytes)) :
    file.size ≤ buffer.length ∧ ∀ x ∈ file.cut.extents, x.LiesIn image framing := by
  have hfits : file.size ≤ buffer.length := by
    refine Nat.le_of_not_lt fun hshort => ?_
    rw [readInto_of_lt file hshort] at h
    cases h
  have hall : totalSize file.cut.extents ≤ file.size := by
    rw [cut, totalSize_cutTo]
    exact Nat.min_le_left _ _
  cases hdeliver : ((FileReader.ofEntry file.cut).deliver file.size).run s with
  | mk d s' =>
    rw [← readInto_cut, readInto_of_deliver file.cut hfits hdeliver] at h
    have hnone : d.failure = none := by
      cases hfailure : d.failure with
      | none => rfl
      | some failure =>
        rw [hfailure] at h
        cases h
    exact ⟨hfits, FileReader.liesIn_of_deliver hs (endLsn_le_of_cutTo hlast) hall hdeliver hnone⟩

/-- A file that is cut to its size has as many bytes, or all there are if its extents hold fewer. -/
theorem length_bytesIn_cut (hcut : ∀ x ∈ file.cut.extents, x.LiesIn image framing) :
    (file.cut.bytesIn image framing).length = min file.size (totalSize file.extents) := by
  rw [bytesIn, length_extentBytes hcut]
  exact totalSize_cutTo file.size file.extents

/-- What reading into a buffer comes to where the extents lie in the image as far as the size goes. -/
theorem readInto_of_liesIn_cut (hs : s.Serves image framing) (hfits : file.size ≤ buffer.length)
    (hcut : ∀ x ∈ file.cut.extents, x.LiesIn image framing) :
    ((file.readInto buffer).run s).1 =
      (if file.size ≤ totalSize file.extents then .ok file.size
        else .error (.format .truncatedRecord),
      file.cut.bytesIn image framing ++ buffer.drop (min file.size (totalSize file.extents))) := by
  obtain ⟨s', hrun⟩ := run_readInto file.cut hs hcut hfits
  have hlength := length_bytesIn_cut hcut
  have hall : (file.cut.bytesIn image framing).length ≤ file.cut.size := by
    rw [hlength]
    exact Nat.min_le_left _ _
  have hsize : file.cut.size ≤ totalSize file.cut.extents ↔
      file.size ≤ totalSize file.extents := by
    rw [cut, totalSize_cutTo]
    exact Nat.le_min.trans (and_iff_right (Nat.le_refl _))
  rw [List.take_of_length_le hall, readInto_cut, hlength] at hrun
  rw [hrun]
  simp only [hsize]
  rfl

/-- Reading into a buffer succeeds if the buffer is large enough, the extents hold as many bytes and
lie in the image as far as the size goes. -/
theorem readInto_eq_ok_iff (hs : s.Serves image framing)
    (hlast : ∀ x ∈ file.extents, x.endLsn ≤ 2 ^ 32) :
    ((file.readInto buffer).run s).1 = (.ok count, bytes) ↔
      (file.size ≤ buffer.length ∧ file.size ≤ totalSize file.extents ∧
        ∀ x ∈ file.cut.extents, x.LiesIn image framing) ∧
      count = file.size ∧
        bytes = file.cut.bytesIn image framing ++ buffer.drop file.size := by
  constructor
  · intro h
    obtain ⟨hfits, hcut⟩ := liesIn_of_readInto hs hlast h
    rw [readInto_of_liesIn_cut hs hfits hcut] at h
    split at h
    · next hsize =>
      rw [Nat.min_eq_left hsize] at h
      cases h
      exact ⟨⟨hfits, hsize, hcut⟩, rfl, rfl⟩
    · cases h
  · rintro ⟨⟨hfits, hsize, hcut⟩, rfl, rfl⟩
    rw [readInto_of_liesIn_cut hs hfits hcut, if_pos hsize, Nat.min_eq_left hsize]

/-- Reading a whole file succeeds if its size is no more than that of the image, and its extents
hold as many bytes and lie in the image as far as the size goes. -/
theorem content_eq_ok_iff (hs : s.Serves image framing)
    (hlast : ∀ x ∈ file.extents, x.endLsn ≤ 2 ^ 32) :
    (file.content.run.run s).1 = .ok bytes ↔
      (file.size ≤ image.bytes.length ∧ file.size ≤ totalSize file.extents ∧
        ∀ x ∈ file.cut.extents, x.LiesIn image framing) ∧
      bytes = file.cut.bytesIn image framing := by
  obtain ⟨s₁, hlength, hs₁⟩ := SectorSource.yields_byteLength s hs
  have hinto (count : Nat) (filled : Bytes) :
      ((file.readInto (Bytes.zeros file.size)).run s₁).1 = (.ok count, filled) ↔
        (file.size ≤ totalSize file.extents ∧ ∀ x ∈ file.cut.extents, x.LiesIn image framing) ∧
          count = file.size ∧ filled = file.cut.bytesIn image framing := by
    rw [readInto_eq_ok_iff hs₁ hlast, Bytes.length_zeros,
      List.drop_of_length_le (Nat.le_of_eq (Bytes.length_zeros _)), List.append_nil,
      and_iff_right (Nat.le_refl file.size)]
  rw [content, run_bind_ok hlength, hs.toNat_length]
  by_cases hshort : image.bytes.length < file.size
  · rw [if_pos hshort, run_bind_error (run_throw _)]
    constructor
    · intro h
      cases h
    · exact fun h => absurd h.1.1 (Nat.not_le.mpr hshort)
  · rw [if_neg hshort]
    cases hrun : (file.readInto (Bytes.zeros file.size)).run s₁ with
    | mk result s₂ =>
      obtain ⟨outcome, filled⟩ := result
      rw [hrun] at hinto
      rw [run_bind_ok (run_liftState hrun)]
      cases outcome with
      | error failure =>
        constructor
        · intro h
          cases h
        · rintro ⟨⟨-, hread⟩, -⟩
          cases (hinto _ _).mpr ⟨hread, rfl, rfl⟩
      | ok count =>
        obtain ⟨hread, -, hfilled⟩ := (hinto count filled).mp rfl
        show Except.ok filled = .ok bytes ↔ _
        rw [Except.ok.injEq, and_iff_right ⟨Nat.not_lt.mp hshort, hread⟩, hfilled, eq_comm]

/-! ## Exactness -/

/-- The bytes are the first of a file, as many as its size says: they are what its extents hold up to
there, and the start of all that they hold where all can be read. -/
structure StartsWith (s : SectorSource δ) (file : Entry) (bytes : Bytes) : Prop where
  length_eq : bytes.length = file.size
  upToSize : ((readExtents file.cut.extents).run.run s).1 = .ok bytes
  start : ∀ all, ((readExtents file.extents).run.run s).1 = .ok all → bytes = all.take file.size

/-- The bytes of the extents, cut to the size, are the first of the file, as reading it whole finds them.
-/
theorem startsWith_bytesIn_cut (file : Entry) (hs : s.Serves image framing)
    (hframe : sectorSize ≤ framing.frameSize.toNat) (hsize : file.size ≤ totalSize file.extents)
    (hcut : ∀ x ∈ file.cut.extents, x.LiesIn image framing) :
    StartsWith s file (file.cut.bytesIn image framing) where
  length_eq := by rw [length_bytesIn_cut hcut, Nat.min_eq_left hsize]
  upToSize := by
    obtain ⟨s', hread, -⟩ := yields_readExtents file.cut.extents s hs
    rw [hread, Image.readExtents_of_liesIn hframe hcut]
    rfl
  start all hall := by
    obtain ⟨s', hread, -⟩ := yields_readExtents file.extents s hs
    rw [hread] at hall
    have hfirst := Image.readExtents_cutTo file.size hall
    exact Except.ok.inj ((Image.readExtents_of_liesIn hframe hcut).symm.trans hfirst)

/-- A file whose extents hold as many bytes as its size says is read exactly if it is no longer than the
image and each of its extents that is not empty is found there. -/
theorem exists_content_iff {file : Entry} (hs : s.Serves image framing)
    (hlast : ∀ x ∈ file.extents, x.endLsn ≤ 2 ^ 32) (hsize : file.size = totalSize file.extents) :
    (∃ bytes, (file.content.run.run s).1 = .ok bytes) ↔ totalSize file.extents ≤ image.bytes.length ∧
      ∀ x ∈ file.extents, x.size ≠ 0 → x.LiesIn image framing := by
  -- The size is right, so that nothing is cut off.
  have hwhole : file.cut.extents = file.extents := cutTo_of_totalSize_le (Nat.le_of_eq hsize.symm)
  rw [← hsize, ← forall_liesIn_iff hlast, ← hwhole]
  constructor
  · rintro ⟨bytes, hok⟩
    obtain ⟨⟨hlength, -, hlies⟩, -⟩ := (content_eq_ok_iff hs hlast).mp hok
    exact ⟨hlength, hlies⟩
  · rintro ⟨hlength, hlies⟩
    exact ⟨_, (content_eq_ok_iff hs hlast).mpr ⟨⟨hlength, Nat.le_of_eq hsize, hlies⟩, rfl⟩⟩

/-- Frames that are so long that the last sectors lie beyond `2 ^ 64`. -/
def longFrames : Framing := ⟨4294967295, 12884901888⟩

/-- An image of three bytes and zeros. -/
def threeBytes : Image := .inShortBlocks ([1, 2, 3] ++ Bytes.zeros 4093)

/-- A file of one byte, in the last sector but one of all that have numbers. -/
def beyondAll : Entry where
  kind := .file
  name := "A"
  rawName := "A"
  size := 1
  extents := [⟨4294967294, 1⟩]
  flags := ⟨0⟩
  xa := none
  timestamp := none
  volumeSequenceNumber := 1

end Entry

end Ecma119
