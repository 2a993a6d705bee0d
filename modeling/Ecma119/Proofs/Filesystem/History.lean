import Ecma119.Proofs.File.Steady
import Ecma119.Proofs.Filesystem.Following
import Ecma119.Proofs.Volume.Settling

/-!
# The history of a file system

A file system keeps a source, which remembers a framing and a length, and the volume that was read.
`Handles` is what holds of these on a steady device after any operations. Every request is one of
three things (`IsBuiltOn`): the volume is read, or the source is, or the source is read once the
volume is known. So three steps say what a request does to a file system; `Handles.run_operation`
adds the search. What one operation preserves, any number of them do, and `history_consistent` is
what follows from that.
-/

namespace Ecma119

variable {δ : Type} [BlockDevice δ] {α β : Type} {device : δ}
variable {options : MountOptions} {framing : Framing} {known : Volume → Prop} {fs : Filesystem δ}

namespace Filesystem

/-! ## The shape of requests -/

/-- Work with a source that comes to the same on all sources on the device under one framing. -/
def Repeatable (device : δ) (work : SourceM δ α) : Prop :=
  ∀ framing, Follows (SectorSource.BothOn device framing) (fun _ => True) work work

/-- Work with a file system that reads the volume, or reads the source, or reads the source once the
volume is known. -/
inductive IsBuiltOn (device : δ) : {α : Type} → FilesystemM δ α → Prop
  | readVolume : IsBuiltOn device readVolume
  | source {α : Type} {work : SourceM δ α} (h : Repeatable device work) :
      IsBuiltOn device (fromSource work)
  | ready {α : Type} {work : Volume × ListOptions → SourceM δ α}
      (h : ∀ p, Repeatable device (work p)) :
      IsBuiltOn device (ready >>= fun p => fromSource (work p))

omit [BlockDevice δ] in
/-- Two pieces of work with the source, one after the other, are one, as the file system is not looked at
between them. -/
theorem fromSource_bind (work : SourceM δ α) (next : α → SourceM δ β) :
    fromSource (work >>= next) = fromSource work >>= fun a => fromSource (next a) := by
  refine funext fun fs => ?_
  show (fromSource (work >>= next)).run.run fs =
    (fromSource work >>= fun a => fromSource (next a)).run.run fs
  cases hwork : work.run.run fs.source with
  | mk outcome source =>
    cases outcome with
    | ok a =>
      have hboth : (work >>= next).run.run fs.source = (next a).run.run source := run_bind_ok hwork
      rw [run_bind_ok (run_fromSource hwork), run_fromSource hboth]
      rfl
    | error failure =>
      have hboth : (work >>= next).run.run fs.source = (.error failure, source) :=
        run_bind_error hwork
      rw [run_bind_error (run_fromSource hwork), run_fromSource hboth]

/-- The path table of a volume, read from the source. -/
def tableOf (volume : Volume) : SourceM δ PathTable := do
  let d := volume.active
  let entries ← readStoredTable .little d.typeLPathTable d.pathTableSize
  if d.typeMPathTable ≠ 0 then
    let others ← readStoredTable .big d.typeMPathTable d.pathTableSize
    agree entries others
  return PathTable.ofList entries

/-- The path table is worked out once the volume has been read, and from sectors only. -/
theorem pathTable_eq : (pathTable : FilesystemM δ PathTable) =
    ready >>= fun p => fromSource (tableOf p.1) := by
  refine congrArg (ready >>= ·) (funext fun p => ?_)
  obtain ⟨volume, opts⟩ := p
  rw [tableOf, fromSource_bind]
  refine congrArg (fromSource (readStoredTable _ _ _) >>= ·) (funext fun entries => ?_)
  dsimp only
  split
  · rw [fromSource_bind]
    refine congrArg (fromSource (readStoredTable _ _ _) >>= ·) (funext fun others => ?_)
    rw [fromSource_bind]
    rfl
  · rfl

/-- A directory is listed once the volume has been read: it is looked up by its path, and then its
entries are listed. -/
theorem readdir_eq (path : String) : (readdir path : FilesystemM δ (List Entry)) =
    ready >>= fun p =>
      fromSource (Tree.lookup p.1 p.2 .display path >>= fun d => Tree.list p.2 d) := by
  refine congrArg (ready >>= ·) (funext fun p => ?_)
  rw [fromSource_bind]

/-- The path table of a volume can be read over again: a steady device gives the same. -/
theorem repeatable_tableOf (device : δ) (volume : Volume) : Repeatable device (tableOf volume) := by
  intro framing
  have hsectors : SectorsFollow (SectorSource.BothOn device framing) fun _ => True :=
    (SectorSource.agree_onDevice device framing).sectorsFollow
  refine (follows_readStoredTable hsectors _ _ _).bind fun entries => ?_
  dsimp only
  split
  · exact (follows_readStoredTable hsectors _ _ _).bind fun others =>
      .bind (.liftM _) fun _ => .pure _
  · exact .pure _

end Filesystem

/-- Reading a file into a buffer, with the number of bytes and the buffer as the result. -/
def Entry.countInto (file : Entry) (buffer : Bytes) : SourceM δ (Nat × Bytes) :=
  ExceptT.mk do
    let (outcome, bytes) ← file.readInto buffer
    return outcome.map fun count => (count, bytes)

open Filesystem in
/-- Every request is built in one of the three ways, and so all that is shown of these holds of it. -/
theorem Request.isBuiltOn (device : δ) (q : Request α) :
    IsBuiltOn device (q.run : FilesystemM δ α) := by
  have hagree := SectorSource.agree_onDevice device
  have hsectors framing : SectorsFollow (SectorSource.BothOn device framing) fun _ => True :=
    (hagree framing).sectorsFollow
  have hreads policy framing := (hsectors framing).reads policy
  cases q with
  | readVolume => exact .readVolume
  | stat path names => exact .ready fun p framing => (hreads _ framing).lookup p.1 p.2 names path
  | readdir path =>
    rw [Request.run, readdir_eq]
    exact .ready fun p framing =>
      ((hreads _ framing).lookup p.1 p.2 .display path).bind fun d => (hreads _ framing).list p.2 d
  | readDirectory lsn size =>
    exact .ready fun p framing => (hreads _ framing).readDirectory p.2 lsn size
  | owner lsn => exact .ready fun p framing => (hreads _ framing).owner p.1 p.2 lsn
  | ownerWithPath lsn => exact .ready fun p framing => (hreads _ framing).ownerWithPath p.1 p.2 lsn
  | pathTable =>
    rw [Request.run, pathTable_eq]
    exact .ready fun p => repeatable_tableOf device p.1
  | readSectors lsn count => exact .source fun framing => (hsectors framing).readSectors lsn count
  | readContent file => exact .source fun framing => file.agree_content (hagree framing)
  | readInto file buffer =>
    show IsBuiltOn device (fromSource (file.countInto buffer))
    exact .source fun framing =>
      ((Entry.agree_readInto (hagree framing) file buffer).bind fun _ => .pure _).follows

namespace Filesystem

/-! ## What a file system knows -/

/-- What the descriptor set reads as under a framing, on a device that has not been read. -/
def readUnder (device : δ) (options : MountOptions) (framing : Framing) : Except Error Volume :=
  ((Volume.read options).run.run (SectorSource.ofDevice device framing)).1

/-- The volume reads so under the framing, or it has been confirmed under it by a search. -/
def IsConfirmed (device : δ) (options : MountOptions) (framing : Framing)
    (volume : Volume) : Prop :=
  readUnder device options framing = .ok volume ∨
    Volume.checkUnder options (SectorSource.ofDevice device) framing = .ok volume

/-- The file system is on the device under the framing, and the volume it keeps is one it may
know. -/
structure Handles (device : δ) (options : MountOptions) (framing : Framing) (known : Volume → Prop)
    (fs : Filesystem δ) : Prop where
  source : fs.source.OnDevice device framing
  options_eq : fs.options = options
  volume : ∀ v ∈ fs.volume, known v

/-- A file system that has just been made is on its device under the standard framing, and knows no
volume yet. -/
theorem handles_ofDevice (hsteady : BlockDevice.IsSteady device) (options : MountOptions)
    (known : Volume → Prop) : Handles device options .standard known (ofDevice device options) :=
  ⟨SectorSource.onDevice_ofDevice hsteady _, rfl, fun _ hv => nomatch hv⟩

section Steps

variable (hsteady : BlockDevice.IsSteady device) (h : Handles device options framing known fs)
include hsteady h

/-- Work with the source leaves the volume alone, and gives what it gives on a fresh source. -/
theorem Handles.run_fromSource {work : SourceM δ α} (hwork : Repeatable device work) :
    ∃ fs', (fromSource work).run.run fs =
        ((work.run.run (SectorSource.ofDevice device framing)).1, fs') ∧
      Handles device options framing known fs' ∧ fs'.volume = fs.volume := by
  obtain ⟨source, hrun, hsource⟩ := h.source.run_eq hsteady (hwork framing)
  exact ⟨_, Filesystem.run_fromSource hrun, ⟨hsource, h.options_eq, h.volume⟩, rfl⟩

variable (hknown : ∀ v, readUnder device options framing = .ok v → known v)
include hknown

/-- If the volume cannot be read, the one that was there is kept; otherwise the new one takes its place.
-/
theorem Handles.run_readVolume :
    ∃ fs', readVolume.run.run fs = (readUnder device options framing, fs') ∧
      Handles device options framing known fs' ∧
      ∀ failure, readUnder device options framing = .error failure → fs'.volume = fs.volume := by
  have hwork : Repeatable device (Volume.read fs.options) := fun framing =>
    ((SectorSource.agree_onDevice device framing).sectorsFollow.reads _).readVolume fs.options
  obtain ⟨fs₁, hrun, hfs₁, hvolume⟩ := h.run_fromSource hsteady hwork
  rw [readVolume, run_bind_ok run_get]
  rw [h.options_eq] at hrun ⊢
  cases hread : readUnder device options framing with
  | ok v =>
    have hrun : (fromSource (Volume.read options)).run.run fs = (.ok v, fs₁) := hread ▸ hrun
    rw [run_bind_ok hrun, run_bind_ok (run_modify _)]
    refine ⟨_, run_pure v, ⟨hfs₁.source, hfs₁.options_eq, fun w hw => ?_⟩, nofun⟩
    cases hw
    exact hknown v hread
  | error failure =>
    have hrun : (fromSource (Volume.read options)).run.run fs = (.error failure, fs₁) :=
      hread ▸ hrun
    exact ⟨fs₁, run_bind_error hrun, hfs₁, fun _ _ => hvolume⟩

/-- A volume that is there is kept, and otherwise it is read. The options are those of that volume. -/
theorem Handles.run_ready :
    ∃ fs', ready.run.run fs =
        ((fs.volume.elim (readUnder device options framing) .ok).map fun v =>
          (v, .forVolume v options), fs') ∧
      Handles device options framing known fs' ∧ ∀ v ∈ fs.volume, fs'.volume = some v := by
  rw [ready, run_bind_ok run_get, h.options_eq]
  cases hvolume : fs.volume with
  | some v =>
    exact ⟨fs, by rw [run_bind_ok (run_pure v)]; exact run_pure _, h, fun w hw => hvolume.trans hw⟩
  | none =>
    obtain ⟨fs₁, hrun, hfs₁, -⟩ := h.run_readVolume hsteady hknown
    refine ⟨fs₁, ?_, hfs₁, fun v hv => absurd hv (Option.not_mem_none v)⟩
    dsimp only [Option.elim_none]
    cases hread : readUnder device options framing with
    | ok v =>
      rw [hread] at hrun
      rw [run_bind_ok hrun]
      exact run_pure _
    | error failure =>
      rw [hread] at hrun
      exact run_bind_error hrun

/-- What is built in one of the three ways keeps the framing. If it fails, a volume that was there
is kept too. -/
theorem Handles.run_isBuiltOn {work : FilesystemM δ α} (hwork : IsBuiltOn device work) :
    ∃ result fs', work.run.run fs = (result, fs') ∧ Handles device options framing known fs' ∧
      ∀ failure, result = .error failure → ∀ v ∈ fs.volume, fs'.volume = some v := by
  cases hwork with
  | readVolume =>
    obtain ⟨fs', hrun, hfs', hkept⟩ := h.run_readVolume hsteady hknown
    exact ⟨_, fs', hrun, hfs', fun failure hfailure v hv => (hkept failure hfailure).trans hv⟩
  | source hrepeat =>
    obtain ⟨fs', hrun, hfs', hkept⟩ := h.run_fromSource hsteady hrepeat
    exact ⟨_, fs', hrun, hfs', fun _ _ v hv => hkept.trans hv⟩
  | ready hrepeat =>
    obtain ⟨fs₁, hrun, hfs₁, hkept⟩ := h.run_ready hsteady hknown
    cases hvolume : fs.volume.elim (readUnder device options framing) .ok with
    | error failure =>
      rw [hvolume] at hrun
      exact ⟨_, fs₁, run_bind_error hrun, hfs₁, fun _ _ => hkept⟩
    | ok v =>
      rw [hvolume] at hrun
      obtain ⟨fs₂, hrun₂, hfs₂, hkept₂⟩ := hfs₁.run_fromSource hsteady (hrepeat _)
      exact ⟨_, fs₂, (run_bind_ok hrun).trans hrun₂, hfs₂,
        fun _ _ v hv => hkept₂.trans (hkept v hv)⟩

end Steps

/-- Where no volume is kept but the one that the descriptor set reads as, what is built in one of
the three ways always gives the same. -/
theorem IsBuiltOn.exists_answer (hsteady : BlockDevice.IsSteady device) {work : FilesystemM δ α}
    (hwork : IsBuiltOn device work) (options : MountOptions) (framing : Framing) :
    ∃ answer, ∀ fs, Handles device options framing (readUnder device options framing = .ok ·) fs →
      (work.run.run fs).1 = answer := by
  cases hwork with
  | readVolume =>
    refine ⟨readUnder device options framing, fun fs h => ?_⟩
    obtain ⟨fs', hrun, -⟩ := h.run_readVolume hsteady fun _ hread => hread
    rw [hrun]
  | @source _ work hrepeat =>
    refine ⟨(work.run.run (SectorSource.ofDevice device framing)).1, fun fs h => ?_⟩
    obtain ⟨fs', hrun, -⟩ := h.run_fromSource hsteady hrepeat
    rw [hrun]
  | @ready _ work hrepeat =>
    refine ⟨readUnder device options framing >>= fun v =>
      ((work (v, .forVolume v options)).run.run (SectorSource.ofDevice device framing)).1,
      fun fs h => ?_⟩
    obtain ⟨fs₁, hrun, hfs₁, -⟩ := h.run_ready hsteady fun _ hread => hread
    have hvolume : fs.volume.elim (readUnder device options framing) .ok =
        readUnder device options framing := by
      cases hv : fs.volume with
      | none => rfl
      | some v => exact (h.volume v hv).symm
    rw [hvolume] at hrun
    cases hread : readUnder device options framing with
    | error failure =>
      rw [hread] at hrun
      rw [run_bind_error hrun]
      rfl
    | ok v =>
      rw [hread] at hrun
      obtain ⟨fs₂, hrun₂, -⟩ := hfs₁.run_fromSource hsteady (hrepeat (v, .forVolume v options))
      rw [run_bind_ok hrun, hrun₂]
      rfl

end Filesystem

/-! ## Operations -/

/-- An operation that gives an `α`: a request, or a search for the framing and the volume. -/
inductive Operation : Type → Type 1 where
  | request {α : Type} (q : Request α) : Operation α
  | search (limit : Nat) : Operation Volume

namespace Operation

def run : Operation α → FilesystemM δ α
  | .request q => q.run
  | .search limit => Filesystem.searchVolume limit

/-- Whether it may change the framing. All other operations leave it as it is. -/
def isSearch : Operation α → Bool
  | .request _ => false
  | .search _ => true

end Operation

namespace Filesystem

/-- What operations, one after the other, make of a file system, whether they fail or not. -/
def afterAll (ops : List (Σ α, Operation α)) (fs : Filesystem δ) : Filesystem δ :=
  ops.foldl (fun fs op => (op.2.run.run.run fs).2) fs

/-- A search that succeeds keeps the volume it has confirmed, and one that fails the volume and the
framing that were there. -/
theorem Handles.run_searchVolume (hsteady : BlockDevice.IsSteady device)
    (h : Handles device options framing (IsConfirmed device options framing) fs) (limit : Nat) :
    ∃ result fs' framing', (searchVolume limit).run.run fs = (result, fs') ∧
      Handles device options framing' (IsConfirmed device options framing') fs' ∧
      ∀ failure, result = .error failure → framing' = framing ∧
        ∀ v ∈ fs.volume, fs'.volume = some v := by
  rw [searchVolume, run_bind_ok run_get, h.options_eq]
  obtain ⟨framing', volume, source, hrun, hcheck, hsource⟩ | ⟨failure, source, hrun, hsource⟩ :=
    Volume.leftBy_search options hsteady limit h.source
  · rw [run_bind_ok (Filesystem.run_fromSource hrun), run_bind_ok (run_modify _)]
    refine ⟨_, _, framing', run_pure volume, ⟨hsource, h.options_eq, fun v hv => ?_⟩, nofun⟩
    cases hv
    exact .inr hcheck
  · exact ⟨_, _, framing, run_bind_error (Filesystem.run_fromSource hrun),
      ⟨hsource, h.options_eq, h.volume⟩, fun _ _ => ⟨rfl, fun v hv => hv⟩⟩

/-- Any operation leaves a volume behind that has been confirmed under the framing left behind, and
one that fails leaves the framing and a volume alone. -/
theorem Handles.run_operation (hsteady : BlockDevice.IsSteady device)
    (h : Handles device options framing (IsConfirmed device options framing) fs)
    (op : Operation α) :
    ∃ result fs' framing', op.run.run.run fs = (result, fs') ∧
      Handles device options framing' (IsConfirmed device options framing') fs' ∧
      ∀ failure, result = .error failure → framing' = framing ∧
        ∀ v ∈ fs.volume, fs'.volume = some v := by
  cases op with
  | request q =>
    obtain ⟨result, fs', hrun, hfs', hkept⟩ :=
      h.run_isBuiltOn hsteady (fun _ => .inl) (q.isBuiltOn device)
    exact ⟨result, fs', framing, hrun, hfs', fun failure hfailure => ⟨rfl, hkept failure hfailure⟩⟩
  | search limit => exact h.run_searchVolume hsteady limit

/-- What operations leave behind has been confirmed under the framing left behind. -/
theorem exists_handles_afterAll (hsteady : BlockDevice.IsSteady device)
    (ops : List (Σ α, Operation α))
    (h : Handles device options framing (IsConfirmed device options framing) fs) :
    ∃ framing', Handles device options framing' (IsConfirmed device options framing')
      (afterAll ops fs) := by
  induction ops generalizing fs framing with
  | nil => exact ⟨framing, h⟩
  | cons op rest ih =>
    obtain ⟨result, fs', framing', hrun, hfs', -⟩ := h.run_operation hsteady op.2
    have hafter : afterAll (op :: rest) fs = afterAll rest fs' := by
      rw [afterAll, List.foldl_cons, hrun]
      rfl
    rw [hafter]
    exact ih hfs'

/-- Requests leave no volume behind but the one that the descriptor set reads as, whatever fails among
them. -/
theorem handles_afterAll_requests (hsteady : BlockDevice.IsSteady device)
    (ops : List (Σ α, Operation α)) (hops : ∀ op ∈ ops, op.2.isSearch = false)
    (h : Handles device options framing (readUnder device options framing = .ok ·) fs) :
    Handles device options framing (readUnder device options framing = .ok ·)
      (afterAll ops fs) := by
  induction ops generalizing fs with
  | nil => exact h
  | cons op rest ih =>
    obtain ⟨hop, hrest⟩ := List.forall_mem_cons.mp hops
    obtain ⟨α, op⟩ := op
    cases op with
    | search limit => cases hop
    | request q =>
      obtain ⟨result, fs', hrun, hfs', -⟩ :=
        h.run_isBuiltOn hsteady (fun _ hread => hread) (q.isBuiltOn device)
      have hafter : afterAll (⟨α, .request q⟩ :: rest) fs = afterAll rest fs' := by
        rw [afterAll, List.foldl_cons]
        dsimp only [Operation.run]
        rw [hrun]
        rfl
      rw [hafter]
      exact ih hrest hfs'

/-- What has been confirmed reads so from any source on the device under the framing. -/
theorem Handles.reads_or_confirmed (hsteady : BlockDevice.IsSteady device)
    (h : Handles device options framing (IsConfirmed device options framing) fs) (v : Volume)
    (hv : v ∈ fs.volume) :
    ((Volume.read options).run.run fs.source).1 = .ok v ∨
      options.confirmation = .primaryDescriptor ∧
        ((Volume.readPrimary options).run.run fs.source).1 = .ok v.primary ∧
        v.joliet = none ∧ v.jolietLevel = 0 ∧ v.hasRockRidge = false := by
  have hsectors : SectorsFollow (SectorSource.BothOn device framing) fun _ => True :=
    (SectorSource.agree_onDevice device framing).sectorsFollow
  have hreads := hsectors.reads options.policy
  obtain ⟨s₁, hread, -⟩ := h.source.run_eq hsteady (hreads.readVolume options)
  obtain ⟨s₂, hprimary, -⟩ := h.source.run_eq hsteady (hreads.readPrimary options)
  rw [hread, hprimary]
  obtain hv | hv := h.volume v hv
  · exact .inl hv
  · obtain hread | ⟨hconfirmation, hprimary, hjoliet, hrockRidge⟩ := Volume.checkUnder_eq_ok hv
    · exact .inl hread
    · refine .inr ⟨hconfirmation, hprimary, hjoliet, ?_, hrockRidge⟩
      rw [Volume.jolietLevel, hjoliet]
      rfl

/-- On a device that does not change, what a file system has been asked before does not show, except
that a search may have changed the framing: the volume that is kept is always one that has been
read, or found by its primary descriptor alone, under the framing in use; a failure changes neither;
and without searches every request gives what it gives on a file system that has been asked
nothing. -/
theorem history_consistent (hsteady : BlockDevice.IsSteady device) (options : MountOptions)
    (ops : List (Σ α, Operation α)) :
    let fresh := ofDevice device options
    let fs := afterAll ops fresh
    fs.options = options ∧
    (∀ v ∈ fs.volume,
      ((Volume.read options).run.run fs.source).1 = .ok v ∨
        options.confirmation = .primaryDescriptor ∧
          ((Volume.readPrimary options).run.run fs.source).1 = .ok v.primary ∧
          v.joliet = none ∧ v.jolietLevel = 0 ∧ v.hasRockRidge = false) ∧
    (∀ {α : Type} (op : Operation α) (failure : Error),
      (op.run.run.run fs).1 = .error failure →
        let fs' := (op.run.run.run fs).2
        fs'.framing = fs.framing ∧ ∀ v ∈ fs.volume, fs'.volume = some v) ∧
    ((∀ op ∈ ops, op.2.isSearch = false) →
      (∀ {α : Type} (q : Request α), (q.run.run.run fs).1 = (q.run.run.run fresh).1) ∧
      ∀ file buffer, ((readInto file buffer).run fs).1 = ((readInto file buffer).run fresh).1) := by
  intro fresh fs
  obtain ⟨framing, h⟩ := exists_handles_afterAll hsteady ops
    (handles_ofDevice hsteady options (IsConfirmed device options .standard))
  refine ⟨h.options_eq, h.reads_or_confirmed hsteady, ?_, fun hops => ⟨?_, ?_⟩⟩
  · intro α op failure hfailure
    obtain ⟨result, fs', framing', hrun, hfs', hkept⟩ := h.run_operation hsteady op
    have hrun : op.run.run.run fs = (result, fs') := hrun
    rw [hrun] at hfailure ⊢
    obtain ⟨hframing, hvolume⟩ := hkept failure hfailure
    exact ⟨hfs'.source.framing_eq.trans (hframing.trans h.source.framing_eq.symm), hvolume⟩
  all_goals
    have hfresh := handles_ofDevice hsteady options (readUnder device options .standard = .ok ·)
    have hfs := handles_afterAll_requests hsteady ops hops hfresh
  · intro α q
    obtain ⟨answer, hanswer⟩ := (q.isBuiltOn device).exists_answer hsteady options .standard
    rw [hanswer fs hfs, hanswer fresh hfresh]
  · intro file buffer
    have hagree := SectorSource.agree_onDevice device .standard
    exact (Entry.agree_readInto hagree file buffer _ _ ⟨hfs.source, hfresh.source⟩).1

/-- After a read that failed and a volume that is not there, a block that can be read reads as
before. -/
theorem history_consistent_badBlock :
    let device : MemoryDevice :=
      { MemoryDevice.ofBytes 2048 (Bytes.zeros 4096) with badBlocks := [0] }
    let fresh := ofDevice device {}
    let fs := afterAll [⟨_, .request (.readSectors 0 2)⟩, ⟨_, .request .readVolume⟩] fresh
    BlockDevice.IsSteady device ∧
      ((Request.readSectors 1 1).run.run.run fs).1 =
        ((Request.readSectors 1 1).run.run.run fresh).1 := by
  have hsteady := MemoryDevice.isSteady
    { MemoryDevice.ofBytes 2048 (Bytes.zeros 4096) with badBlocks := [0] }
  have hrequests : ∀ op ∈ [(⟨_, .request (.readSectors 0 2)⟩ : Σ α, Operation α),
      ⟨_, .request .readVolume⟩], op.2.isSearch = false := by
    simp [Operation.isSearch]
  exact ⟨hsteady, ((history_consistent hsteady {} _).2.2.2 hrequests).1 (.readSectors 1 1)⟩

end Filesystem

end Ecma119
