import Ecma119.Proofs.Directory.Lenient
import Ecma119.Proofs.Filesystem.History
import Ecma119.Proofs.Volume.Halves

/-!
# What the policy decides

What is read of a volume strictly is read as well if halves need not agree, with the same requests
to the device. `Loosened` says so of any two pieces of work, and `ReadsFollow.lenient` gives it for
all that is built on sectors. Two handles that differ in the policy then answer alike where the
strict one answers: `Request.loosened`. Together with what it says of records and descriptors,
`policy_decides_halves` tells all that the policy decides.
-/

namespace Ecma119

/-! ## Work that is loosened -/

section Loosened

variable {σ α : Type} {carried : Error → Prop}

/-- What the first work gives, the second gives too, and leaves its state as the first does. -/
abbrev Loosened (work work' : ExceptT Error (StateM σ) α) : Prop :=
  Follows (· = ·) (fun _ => False) work work'

/-- Work follows itself from equal states, whichever failures are carried over. -/
theorem Follows.refl (work : ExceptT Error (StateM σ) α) :
    Follows (· = ·) carried work work := by
  rintro s _ rfl result s' hrun _
  exact ⟨s', hrun, rfl⟩

/-- Where no failure is carried over, it is enough that what makes sense makes the same. -/
theorem Carries.of_ok {result result' : Except FormatError α}
    (h : ∀ a, result = .ok a → result' = .ok a) : Carries (fun _ => False) result result' := by
  intro hcarried
  cases result with
  | ok a => exact h a rfl
  | error cause => exact hcarried.elim

end Loosened

variable {δ : Type} [BlockDevice δ] {α : Type}

/-- What is made of sectors strictly is made of them leniently, by the parsers of records and of
descriptors. -/
theorem ReadsFollow.lenient :
    ReadsFollow (δ := δ) (ε := δ) (· = ·) (fun _ => False) .strict .lenient where
  readSector _ := .refl _
  readSectors _ _ := .refl _
  record _ := .of_ok fun _ => DirectoryRecord.reconciles_parse.ok_of_strict
  descriptor _ := .of_ok fun _ => VolumeDescriptor.reconciles_parse.ok_of_strict
  directory _ _ := .of_ok fun _ => parseDirectory_lenient

/-! ## Handles -/

def MountOptions.under (options : MountOptions) (policy : EndianPolicy) : MountOptions :=
  { options with policy }

namespace Filesystem

def under (fs : Filesystem δ) (policy : EndianPolicy) : Filesystem δ :=
  { fs with options := fs.options.under policy }

/-- Two handles differ in the policy only: the first is strict, the second lenient. -/
def BothUnder (s t : Filesystem δ) : Prop :=
  ∃ fs : Filesystem δ, s = fs.under .strict ∧ t = fs.under .lenient

omit [BlockDevice δ] in
/-- Work with the source does not look at the policy, which only the parsing of sectors does. -/
theorem loosened_fromSource {work work' : SourceM δ α} (h : Loosened work work') :
    Follows BothUnder (fun _ => False) (fromSource work) (fromSource work') := by
  rintro _ _ ⟨fs, rfl, rfl⟩ result s' hrun hcarried
  cases hwork : work.run.run fs.source with
  | mk outcome source =>
    have hfirst : (fromSource work).run.run (fs.under .strict) =
        (outcome, { fs.under .strict with source }) := run_fromSource hwork
    rw [hfirst] at hrun
    cases hrun
    obtain ⟨_, hwork', rfl⟩ := h _ _ rfl _ _ hwork hcarried
    exact ⟨{ fs.under .lenient with source }, run_fromSource hwork', { fs with source }, rfl, rfl⟩

/-- A volume that is read strictly is read leniently too, and kept in both handles. -/
theorem loosened_readVolume :
    Follows (BothUnder (δ := δ)) (fun _ => False) readVolume readVolume := by
  refine .get_bind ?_
  rintro _ _ ⟨fs, rfl, rfl⟩
  refine (loosened_fromSource (ReadsFollow.lenient.readVolume fs.options)).bind fun volume => ?_
  refine .bind (.modify ?_) fun _ => .pure volume
  rintro _ _ ⟨other, rfl, rfl⟩
  exact ⟨{ other with volume := some volume }, rfl, rfl⟩

/-- What needs the volume is done with the same volume, and with options that differ in the policy.
-/
theorem loosened_ready_bind {work : Volume × ListOptions → SourceM δ α}
    (h : ∀ volume (opts : ListOptions),
      Loosened (work (volume, opts.under .strict)) (work (volume, opts.under .lenient))) :
    Follows BothUnder (fun _ => False) (ready >>= fun p => fromSource (work p))
      (ready >>= fun p => fromSource (work p)) := by
  rw [ready, bind_assoc]
  refine .get_bind ?_
  rintro _ _ ⟨fs, rfl, rfl⟩
  have hwork (volume : Volume) : Follows BothUnder (fun _ => False)
      (fromSource (work (volume, .forVolume volume (fs.options.under .strict))))
      (fromSource (work (volume, .forVolume volume (fs.options.under .lenient)))) :=
    loosened_fromSource (h volume (.forVolume volume fs.options))
  have hvolume (policy : EndianPolicy) : (fs.under policy).volume = fs.volume := rfl
  rw [hvolume, hvolume]
  cases fs.volume with
  | some volume =>
    simp only [pure_bind]
    exact hwork volume
  | none =>
    simp only [bind_assoc, pure_bind]
    exact loosened_readVolume.bind hwork

end Filesystem

open Filesystem in
/-- What a strict handle answers, a lenient one does, request by request. -/
theorem Request.loosened (q : Request α) :
    Follows (BothUnder (δ := δ)) (fun _ => False) q.run q.run := by
  cases q with
  | readVolume => exact loosened_readVolume
  | stat path names =>
    exact loosened_ready_bind fun volume opts => ReadsFollow.lenient.lookup volume opts names path
  | readdir path =>
    rw [Request.run, readdir_eq]
    exact loosened_ready_bind fun volume opts =>
      (ReadsFollow.lenient.lookup volume opts .display path).bind fun d =>
        ReadsFollow.lenient.list opts d
  | readDirectory lsn size =>
    exact loosened_ready_bind fun _ opts => ReadsFollow.lenient.readDirectory opts lsn size
  | owner lsn =>
    exact loosened_ready_bind fun volume opts => ReadsFollow.lenient.owner volume opts lsn
  | ownerWithPath lsn =>
    exact loosened_ready_bind fun volume opts => ReadsFollow.lenient.ownerWithPath volume opts lsn
  | pathTable =>
    rw [Request.run, pathTable_eq]
    exact loosened_ready_bind fun _ _ => .refl _
  | readSectors lsn count => exact loosened_fromSource (.refl (SectorSource.readSectors lsn count))
  | readContent file => exact loosened_fromSource (.refl file.content)
  | readInto file buffer =>
    show Follows BothUnder _ (fromSource (file.countInto buffer)) _
    exact loosened_fromSource (.refl _)

/-- **The policy decides about halves and about nothing else.** A record or a descriptor is read
strictly as it is read leniently, unless the halves of a number differ; and lenient reading does not
look at the last halves. So a directory, a volume, a path or the owner of a sector that is found
strictly is found leniently, and any request that a strict handle answers is answered alike by a
lenient one. -/
theorem policy_decides_halves (δ : Type) [BlockDevice δ] :
    Reconciles DirectoryRecord.dualFields DirectoryRecord.parse ∧
    Reconciles VolumeDescriptor.dualFields VolumeDescriptor.parse ∧
    (∀ (opts : ListOptions) (extent : Bytes) (entries : List Entry),
      parseDirectory (opts.under .strict) extent = .ok entries →
        parseDirectory (opts.under .lenient) extent = .ok entries) ∧
    (∀ (options : MountOptions) (s : SectorSource δ) (volume : Volume),
      ((Volume.read (options.under .strict)).run.run s).1 = .ok volume →
        ((Volume.read (options.under .lenient)).run.run s).1 = .ok volume) ∧
    (∀ (volume : Volume) (opts : ListOptions) (names : NameKind) (path : String)
        (s : SectorSource δ) (e : Entry),
      ((Tree.lookup volume (opts.under .strict) names path).run.run s).1 = .ok e →
        ((Tree.lookup volume (opts.under .lenient) names path).run.run s).1 = .ok e) ∧
    (∀ (opts : ListOptions) (directory : Entry) (s : SectorSource δ) (entries : List Entry),
      ((Tree.list (opts.under .strict) directory).run.run s).1 = .ok entries →
        ((Tree.list (opts.under .lenient) directory).run.run s).1 = .ok entries) ∧
    (∀ (volume : Volume) (opts : ListOptions) (lsn : UInt32) (s : SectorSource δ) (e : Entry),
      ((Tree.owner volume (opts.under .strict) lsn).run.run s).1 = .ok e →
        ((Tree.owner volume (opts.under .lenient) lsn).run.run s).1 = .ok e) ∧
    (∀ (α : Type) (q : Request α) (fs : Filesystem δ) (a : α),
      (q.run.run.run (fs.under .strict)).1 = .ok a →
        (q.run.run.run (fs.under .lenient)).1 = .ok a) := by
  have hgives {α : Type} {work work' : SourceM δ α} (h : Loosened work work') (s : SectorSource δ)
      (a : α) (hstrict : (work.run.run s).1 = .ok a) : (work'.run.run s).1 = .ok a := by
    obtain ⟨t, hrun, -⟩ := h s s rfl _ _ (Prod.ext hstrict rfl) trivial
    rw [hrun]
  refine ⟨DirectoryRecord.reconciles_parse, VolumeDescriptor.reconciles_parse,
    ?_, ?_, ?_, ?_, ?_, ?_⟩
  · exact fun opts extent entries => parseDirectory_lenient
  · exact fun options => hgives (ReadsFollow.lenient.readVolume options)
  · exact fun volume opts names path => hgives (ReadsFollow.lenient.lookup volume opts names path)
  · exact fun opts directory => hgives (ReadsFollow.lenient.list opts directory)
  · exact fun volume opts lsn => hgives (ReadsFollow.lenient.owner volume opts lsn)
  · intro α q fs a hstrict
    have hboth : Filesystem.BothUnder (fs.under .strict) (fs.under .lenient) := ⟨fs, rfl, rfl⟩
    obtain ⟨t, hrun, -⟩ := q.loosened _ _ hboth _ _ (Prod.ext hstrict rfl) trivial
    rw [hrun]

end Ecma119
