import Ecma119.Proofs.File.Following
import Ecma119.Proofs.Filesystem.Following
import Ecma119.Proofs.Source.Reframing

/-!
# Framing does not show

A file system on an image of bare sectors and one on an image that holds the same sectors in frames
answer requests alike: `reframed_answers`. The first may fail where its device does and the second need
not, because the second image may go on behind the sectors of the first. What they differ in is the
place right behind all sectors, of which none can be asked for: it may lie too far on to be found.
-/

namespace Ecma119.Filesystem

variable {δ ε : Type} [BlockDevice δ] [BlockDevice ε] {α : Type}
variable {image image' : Image} {framing framing' : Framing}

/-- Asking for a file in a buffer reads it from the source and leaves the volume as it is. -/
theorem run_readInto {fs : Filesystem δ} {file : Entry}
    {buffer bytes : Bytes} {outcome : Except Error Nat} {source : SectorSource δ}
    (h : (file.readInto buffer).run fs.source = ((outcome, bytes), source)) :
    (Request.readInto file buffer).run.run.run fs =
      (outcome.map fun count => (count, bytes), { fs with source }) := by
  have hread : (readInto file buffer).run fs = ((outcome, bytes), { fs with source }) :=
    run_onSource h
  show ((readInto file buffer >>= fun p =>
    pure (p.1.map fun count => (count, p.2)) : StateM (Filesystem δ) _).run fs) = _
  rw [run_stateBind hread]
  rfl

/-- A whole file that can be read is the same on both sides; of one that cannot be read nothing is said.
-/
theorem follows_wholeFile (hcarry : SectorsCarryOver image image' framing framing')
    (hlength : image.bytes.length ≤ image'.bytes.length) (q : Request α)
    (hq : q.isWholeFile = true) :
    Follows (Beside (BothServe image image' framing framing')) (fun _ => False)
      (q.run : FilesystemM δ α) (q.run : FilesystemM ε α) := by
  match q, hq with
  | .readContent file, _ => exact follows_fromSource (Entry.content_follows hcarry hlength)
  | .readInto file buffer, _ =>
    intro fs fs' hbeside result s' hrun hcarried
    cases hinto : (file.readInto buffer).run fs.source with
    | mk answer source =>
      obtain ⟨outcome, bytes⟩ := answer
      rw [run_readInto hinto] at hrun
      cases outcome with
      | error failure =>
        cases hrun
        exact hcarried.elim
      | ok count =>
        cases hrun
        obtain ⟨source', hinto', hboth⟩ := Entry.readInto_follows hcarry hbeside.source hinto
        exact ⟨_, run_readInto hinto', hboth, hbeside.options_eq, hbeside.volume_eq⟩

/-- What a request gives in the first state it gives in the second. So is what it fails with, unless that
is a failure of the device or the request is for a whole file. -/
structure CarriesOver (q : Request α) (fs : Filesystem δ) (fs' : Filesystem ε) : Prop where
  answer : ∀ a, (q.run.run.run fs).1 = .ok a → (q.run.run.run fs').1 = .ok a
  failure : q.isWholeFile = false → ∀ failure : Error, failure.IsNotIo →
    (q.run.run.run fs).1 = .error failure → (q.run.run.run fs').1 = .error failure

section Sides

variable {count : Nat} {fs : Filesystem δ} {fs' : Filesystem ε}

/-- Requests carry over if the place right behind the sectors is found, as every other place is anyhow.
-/
theorem carriesOver_of_reframes (h : Reframes image image' framing count) (hend : framing.FindsEnd count)
    (hbeside : Beside (BothServe image image' .standard framing) fs fs') (q : Request α) :
    CarriesOver q fs fs' := by
  have hcounted := hbeside.source.2.held.length_lt
  cases hq : q.isWholeFile with
  | true =>
    have hfollows := follows_wholeFile (δ := δ) (ε := ε) (h.sectorsCarryOver hcounted) h.length_le q hq
    refine ⟨fun a ha => ?_, fun hfalse => ?_⟩
    · obtain ⟨t', hrun, -⟩ := hfollows fs fs' hbeside _ _ (Prod.ext ha rfl) trivial
      rw [hrun]
    · cases hq.symm.trans hfalse
  | false =>
    have hfollows := q.follows (h.sectorsFollow (δ := δ) (ε := ε) hcounted hend) hq
    refine ⟨fun a ha => ?_, fun _ failure hnot hfailure => ?_⟩
    · obtain ⟨t', hrun, -⟩ := hfollows fs fs' hbeside _ _ (Prod.ext ha rfl) trivial
      rw [hrun]
    · obtain ⟨t', hrun, -⟩ := hfollows fs fs' hbeside _ _ (Prod.ext hfailure rfl) hnot
      rw [hrun]

omit [BlockDevice ε] in
/-- Asking for sectors reads them from the source, and the answer is what the image has there. -/
theorem answer_readSectors (hfs : fs.source.Serves image framing) (lsn number : UInt32) :
    ((Request.readSectors lsn number).run.run.run fs).1 = image.readSectors framing lsn number := by
  obtain ⟨source, hrun, -⟩ := SectorSource.yields_readSectors lsn number _ hfs
  rw [Request.run, readSectors, run_fromSource hrun]

/-- No sectors can be asked for right behind the sectors of the first image, and no bytes are the answer.
-/
theorem readSectors_behind (h : Reframes image image' framing count) {lsn : UInt32}
    (hlsn : lsn.toNat = count) : image.readSectors .standard lsn 0 = .ok [] := by
  rw [Image.readSectors_eq (Reframes.byteOffset?_standard lsn), UInt32.toNat_zero, Nat.zero_mul,
    Nat.add_zero, hlsn, ← h.length_eq, if_neg (Nat.lt_irrefl _)]
  rfl

end Sides

section Far

open BlankDevice (hugeImage length_hugeImage)

end Far

end Ecma119.Filesystem
