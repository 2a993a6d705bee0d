import Ecma119.Filesystem
import Ecma119.Proofs.Source.Following

/-!
# Two file systems side by side

A `Request` is an operation on a file system that keeps its framing. If the sectors of two sources
follow each other, so do the requests on two file systems that have read the same volume, or none
yet.
-/

namespace Ecma119

/-! ## Requests -/

/-- An operation that gives an `α`. -/
inductive Request : Type → Type 1 where
  | readVolume : Request Volume
  | stat (path : String) (names : NameKind) : Request Entry
  | readdir (path : String) : Request (List Entry)
  | readDirectory (lsn size : UInt32) : Request (List Entry)
  | owner (lsn : UInt32) : Request Entry
  | ownerWithPath (lsn : UInt32) : Request (String × Entry)
  | pathTable : Request PathTable
  | readSectors (lsn count : UInt32) : Request Bytes
  | readContent (file : Entry) : Request Bytes
  | readInto (file : Entry) (buffer : Bytes) : Request (Nat × Bytes)

namespace Request

variable {δ : Type} [BlockDevice δ] {α : Type}

/-- What is asked of the file system, as the operation that answers it. -/
def run : {α : Type} → Request α → FilesystemM δ α
  | _, .readVolume => Filesystem.readVolume
  | _, .stat path names => Filesystem.stat path names
  | _, .readdir path => Filesystem.readdir path
  | _, .readDirectory lsn size => Filesystem.readDirectory lsn size
  | _, .owner lsn => Filesystem.owner lsn
  | _, .ownerWithPath lsn => Filesystem.ownerWithPath lsn
  | _, .pathTable => Filesystem.pathTable
  | _, .readSectors lsn count => Filesystem.readSectors lsn count
  | _, .readContent file => Filesystem.readContent file
  | _, .readInto file buffer => ExceptT.mk do
    let (outcome, bytes) ← Filesystem.readInto file buffer
    return outcome.map fun count => (count, bytes)

def isWholeFile : Request α → Bool
  | .readContent _ | .readInto _ _ => true
  | _ => false

end Request

/-! ## Handles -/

variable {δ ε : Type} [BlockDevice δ] [BlockDevice ε] {α : Type}
variable {R : SectorSource δ → SectorSource ε → Prop} {carried : Error → Prop}

structure Beside (R : SectorSource δ → SectorSource ε → Prop) (fs : Filesystem δ)
    (fs' : Filesystem ε) : Prop where
  source : R fs.source fs'.source
  options_eq : fs'.options = fs.options
  volume_eq : fs'.volume = fs.volume

namespace Filesystem

omit [BlockDevice δ] in
/-- Work on the source of a file system keeps everything else of the file system. -/
theorem run_onSource {work : StateM (SectorSource δ) α} {fs : Filesystem δ} {a : α}
    {source : SectorSource δ} (h : work.run fs.source = (a, source)) :
    (onSource work).run fs = (a, { fs with source }) := by
  show ((work.run fs.source).1, { fs with source := (work.run fs.source).2 }) = _
  rw [h]

omit [BlockDevice δ] in
/-- Reading from the source of a file system keeps everything else of it, also when the reading fails. -/
theorem run_fromSource {work : SourceM δ α} {fs : Filesystem δ} {result : Except Error α}
    {source : SectorSource δ} (h : work.run.run fs.source = (result, source)) :
    (fromSource work).run.run fs = (result, { fs with source }) :=
  run_onSource h

omit [BlockDevice δ] [BlockDevice ε] in
/-- Work with the sources of two file systems follows each other as it does without them. -/
theorem follows_fromSource {work : SourceM δ α} {work' : SourceM ε α}
    (h : Follows R carried work work') :
    Follows (Beside R) carried (fromSource work) (fromSource work') := by
  intro fs fs' hbeside result s' hrun hcarried
  cases hwork : work.run.run fs.source with
  | mk outcome source =>
    rw [run_fromSource hwork] at hrun
    cases hrun
    obtain ⟨source', hwork', hR⟩ := h _ _ hbeside.source _ _ hwork hcarried
    exact ⟨_, run_fromSource hwork', hR, hbeside.options_eq, hbeside.volume_eq⟩

/-- Reading the volume depends on the options, which are the same, and on the sectors, which follow each
other. -/
theorem follows_readVolume (h : SectorsFollow R carried) :
    Follows (Beside R) carried readVolume readVolume := by
  refine .get_bind fun fs fs' hbeside => ?_
  rw [hbeside.options_eq]
  refine (follows_fromSource ((h.reads _).readVolume fs.options)).bind fun volume => ?_
  exact .bind (.modify fun s t hst => ⟨hst.source, hst.options_eq, rfl⟩) fun _ => .pure volume

/-- A volume that has been read is the same on both sides, and otherwise it is read on both. -/
theorem follows_ready (h : SectorsFollow R carried) :
    Follows (Beside R) carried ready ready := by
  refine .get_bind fun fs fs' hbeside => ?_
  rw [hbeside.options_eq, hbeside.volume_eq]
  cases fs.volume with
  | some volume => exact .bind (.pure volume) fun _ => .pure _
  | none => exact (follows_readVolume h).bind fun _ => .pure _

/-- A source that serves the image does so when the volume has been read, or was there already. -/
theorem serves_ready {image : Image} {framing : Framing} {p : Volume × ListOptions}
    {fs fs' : Filesystem δ} (hs : fs.source.Serves image framing)
    (h : ready.run.run fs = (.ok p, fs')) : fs'.source.Serves image framing := by
  have hsectors : SectorsFollow (δ := δ) (ε := δ) (BothServe image image framing framing)
      fun _ => True := .of_images (fun _ _ => rfl) (fun _ _ _ => rfl)
  obtain ⟨t, -, hbeside⟩ := follows_ready hsectors fs fs ⟨⟨hs, hs⟩, rfl, rfl⟩ _ _ h trivial
  exact hbeside.source.1

/-- A stored path table is read alike from sources of which the sectors follow each other. -/
theorem follows_readStoredTable (h : SectorsFollow R carried) (order : ByteOrder)
    (lsn size : UInt32) :
    Follows R carried (readStoredTable order lsn size) (readStoredTable order lsn size) :=
  (h.readSectors lsn _).bind fun _ => .liftM _

/-- The path table of a file system follows that of the other, as its volume and its sectors do. -/
theorem follows_pathTable (h : SectorsFollow R carried) :
    Follows (Beside R) carried pathTable pathTable := by
  refine (follows_ready h).bind fun (volume, _) => ?_
  refine (follows_fromSource (follows_readStoredTable h _ _ _)).bind fun entries => ?_
  split
  · refine (follows_fromSource (follows_readStoredTable h _ _ _)).bind fun others => ?_
    exact .bind (follows_fromSource (.liftM _)) fun _ => .pure _
  · exact .pure _

end Filesystem

open Filesystem in
/-- Requests that do not ask for a whole file need nothing but sectors. There is one case for each of
them. -/
theorem Request.follows (h : SectorsFollow R carried) (q : Request α)
    (hq : q.isWholeFile = false) : Follows (Beside R) carried q.run q.run := by
  cases q with
  | readVolume => exact follows_readVolume h
  | stat path names =>
    exact (follows_ready h).bind fun (volume, opts) =>
      follows_fromSource ((h.reads _).lookup volume opts names path)
  | readdir path =>
    exact (follows_ready h).bind fun (volume, opts) =>
      (follows_fromSource ((h.reads _).lookup volume opts .display path)).bind fun directory =>
        follows_fromSource ((h.reads _).list opts directory)
  | readDirectory lsn size =>
    exact (follows_ready h).bind fun (_, opts) =>
      follows_fromSource ((h.reads _).readDirectory opts lsn size)
  | owner lsn =>
    exact (follows_ready h).bind fun (volume, opts) =>
      follows_fromSource ((h.reads _).owner volume opts lsn)
  | ownerWithPath lsn =>
    exact (follows_ready h).bind fun (volume, opts) =>
      follows_fromSource ((h.reads _).ownerWithPath volume opts lsn)
  | pathTable => exact follows_pathTable h
  | readSectors lsn count => exact follows_fromSource (h.readSectors lsn count)
  | readContent file => cases hq
  | readInto file buffer => cases hq

end Ecma119
