import Ecma119.Proofs.Follows
import Ecma119.Proofs.Source.Serving
import Ecma119.Tree.Owner
import Ecma119.Volume.Search

/-!
# What is built on sectors

Descriptor sets, directories and searches of the tree are read by reading sectors and making sense
of them. If the sectors of two sources follow each other, all of these do, as `SectorsFollow` is all
that they need under one policy. Under two policies what is made of the sectors has to be carried
over too, and `ReadsFollow` says that it is.
-/

namespace Ecma119

variable {δ ε : Type} [BlockDevice δ] [BlockDevice ε]

/-! ## Sources that serve images -/

/-- The first source serves one image, the second another. -/
def BothServe (image image' : Image) (framing framing' : Framing) (s : SectorSource δ)
    (t : SectorSource ε) : Prop :=
  s.Serves image framing ∧ t.Serves image' framing'

/-- The sectors that can be read in the first image are the same in the second. -/
def SectorsCarryOver (image image' : Image) (framing framing' : Framing) : Prop :=
  ∀ lsn sector, image.readSector framing lsn = .ok sector →
    image'.readSector framing' lsn = .ok sector

section BothServe

variable {image image' : Image} {framing framing' : Framing} {carried : Error → Prop}

/-- If the second work yields what the first does, as far as that is carried over, it follows it. -/
theorem Follows.of_yields {α : Type} {work : SourceM δ α} {work' : SourceM ε α}
    {result result' : Except Error α} (hwork : SectorSource.Yields image framing work result)
    (hwork' : SectorSource.Yields image' framing' work' result')
    (hsame : IsCarried carried result → result' = result) :
    Follows (BothServe image image' framing framing') carried work work' := by
  rintro s t ⟨hs, ht⟩ outcome s' hrun hcarried
  obtain ⟨s₁, hrun₁, hs₁⟩ := hwork s hs
  obtain ⟨t₁, hrun', ht₁⟩ := hwork' t ht
  rw [hrun₁] at hrun
  cases hrun
  exact ⟨t₁, by rw [hrun', hsame hcarried], hs₁, ht₁⟩

end BothServe

/-! ## Reading sectors -/

/-- Reading sectors from one source follows reading them from the other. -/
structure SectorsFollow (R : SectorSource δ → SectorSource ε → Prop) (carried : Error → Prop) :
    Prop where
  readSector : ∀ lsn,
    Follows R carried (SectorSource.readSector lsn) (SectorSource.readSector lsn)
  readSectors : ∀ lsn count,
    Follows R carried (SectorSource.readSectors lsn count) (SectorSource.readSectors lsn count)

namespace SectorsFollow

/-- The sectors of two images follow each other if what is carried over is the same in both. -/
theorem of_images {image image' : Image} {framing framing' : Framing} {carried : Error → Prop}
    (hsector : ∀ lsn, IsCarried carried (image.readSector framing lsn) →
      image'.readSector framing' lsn = image.readSector framing lsn)
    (hsectors : ∀ lsn count, IsCarried carried (image.readSectors framing lsn count) →
      image'.readSectors framing' lsn count = image.readSectors framing lsn count) :
    SectorsFollow (δ := δ) (ε := ε) (BothServe image image' framing framing') carried where
  readSector lsn :=
    .of_yields (SectorSource.yields_readSector lsn) (SectorSource.yields_readSector lsn)
      (hsector lsn)
  readSectors lsn count :=
    .of_yields (SectorSource.yields_readSectors lsn count)
      (SectorSource.yields_readSectors lsn count) (hsectors lsn count)

end SectorsFollow

/-! ## Making sense of sectors -/

/-- Sectors follow each other, and what is made of them under one policy is made of them under the
other, as far as that is carried over. -/
structure ReadsFollow (R : SectorSource δ → SectorSource ε → Prop) (carried : Error → Prop)
    (policy policy' : EndianPolicy) : Prop extends SectorsFollow R carried where
  record : ∀ data,
    Carries carried (DirectoryRecord.parse policy data) (DirectoryRecord.parse policy' data)
  descriptor : ∀ sector,
    Carries carried (VolumeDescriptor.parse policy sector) (VolumeDescriptor.parse policy' sector)
  directory : ∀ (opts : ListOptions) extent,
    Carries carried (parseDirectory { opts with policy := policy } extent)
      (parseDirectory { opts with policy := policy' } extent)

variable {R : SectorSource δ → SectorSource ε → Prop} {carried : Error → Prop}
variable {policy policy' : EndianPolicy}

/-- Under one policy sectors are all that is needed, as equal sectors are parsed alike. -/
theorem SectorsFollow.reads (h : SectorsFollow R carried) (policy : EndianPolicy) :
    ReadsFollow R carried policy policy where
  toSectorsFollow := h
  record _ _ := rfl
  descriptor _ _ := rfl
  directory _ _ _ := rfl

namespace ReadsFollow

/-! ## The descriptor set -/

/-- The primary descriptor that is read from one source is read from the other. -/
theorem readPrimary (h : ReadsFollow R carried policy policy') (options : MountOptions) :
    Follows R carried (Volume.readPrimary { options with policy := policy })
      (Volume.readPrimary { options with policy := policy' }) := by
  refine (h.readSector _).bind fun sector => .bind (.liftM _) fun header => ?_
  have hparse := (h.descriptor sector).follows_liftM (R := R)
  dsimp only
  split
  · exact .bind (.throw _) fun _ => hparse
  · exact hparse

/-- The Joliet descriptor that is kept is the same, as it is chosen by its level and by the options. -/
theorem keepJoliet (h : ReadsFollow R carried policy policy') (options : MountOptions)
    (header : DescriptorHeader) (sector : Bytes) (kept : Option VolumeDescriptor) :
    Carries carried (Volume.keepJoliet { options with policy := policy } header sector kept)
      (Volume.keepJoliet { options with policy := policy' } header sector kept) := by
  refine .bind (fun _ => rfl) fun _ => ?_
  cases kept with
  | some descriptor => exact fun _ => rfl
  | none => exact .bind (h.descriptor sector) fun candidate _ => rfl

/-- The descriptors behind it are gone through alike, up to the terminator or the end of the set. -/
theorem readSupplementary (h : ReadsFollow R carried policy policy') (options : MountOptions)
    (count : Nat) (lsn : UInt32) (kept : Option VolumeDescriptor) :
    Follows R carried
      (Volume.readSupplementary { options with policy := policy } count lsn kept)
      (Volume.readSupplementary { options with policy := policy' } count lsn kept) := by
  induction count generalizing lsn kept with
  | zero => exact .throw _
  | succ count ih =>
    refine (h.readSector lsn).bind fun sector => .bind (.liftM _) fun header => ?_
    split
    · exact .pure kept
    · exact (h.keepJoliet options header sector kept).follows_liftM.bind fun kept => ih _ kept
    · exact ih _ kept
    · exact ih _ kept
    · exact ih _ kept
    · exact .throw _

/-- Whether a directory has Rock Ridge is told from its first sector, and so alike on both sides. -/
theorem directoryHasRockRidge (h : ReadsFollow R carried policy policy') (options : MountOptions)
    (lsn : UInt32) :
    Follows R carried (Volume.directoryHasRockRidge { options with policy := policy } lsn)
      (Volume.directoryHasRockRidge { options with policy := policy' } lsn) := by
  refine (h.readSector lsn).bind fun sector => ?_
  split
  · exact .pure false
  · exact (h.record sector).follows_liftM.bind fun record => .pure _

/-- A volume is read alike: its descriptors, and with them what the directory of the root says. -/
theorem readVolume (h : ReadsFollow R carried policy policy') (options : MountOptions) :
    Follows R carried (Volume.read { options with policy := policy })
      (Volume.read { options with policy := policy' }) := by
  refine (h.readPrimary options).bind fun primary =>
    (h.readSupplementary options _ _ none).bind fun joliet => ?_
  dsimp only
  split
  · exact (h.directoryHasRockRidge options _).bind fun _ => .pure _
  · exact .bind (.pure false) fun _ => .pure _

/-- A volume that is come upon is confirmed on one side exactly as on the other. -/
theorem confirm (h : ReadsFollow R carried policy policy') (options : MountOptions) :
    Follows R carried (Volume.confirm { options with policy := policy })
      (Volume.confirm { options with policy := policy' }) := by
  rw [Volume.confirm, Volume.confirm]
  dsimp only
  split
  · exact h.readVolume options
  · exact (h.readPrimary options).bind fun _ => .pure _

/-! ## The tree -/

/-- A directory is read alike from its sectors, which are read at once and then parsed. -/
theorem readDirectory (h : ReadsFollow R carried policy policy') (opts : ListOptions)
    (lsn size : UInt32) :
    Follows R carried (Tree.readDirectory { opts with policy := policy } lsn size)
      (Tree.readDirectory { opts with policy := policy' } lsn size) :=
  (h.readSectors lsn _).bind fun _ => (h.directory opts _).follows_liftM

/-- The entries of a directory are listed alike, and so is what is no directory refused. -/
theorem list (h : ReadsFollow R carried policy policy') (opts : ListOptions) (directory : Entry) :
    Follows R carried (Tree.list { opts with policy := policy } directory)
      (Tree.list { opts with policy := policy' } directory) := by
  refine .bind ?_ fun extent => h.readDirectory opts extent.lsn extent.size
  cases directory.directoryExtent with
  | ok extent => exact .pure extent
  | error failure => exact .throw failure

/-- A path is followed alike, by induction on its components: each directory on the way is listed on both
sides. -/
theorem follow (h : ReadsFollow R carried policy policy') (opts : ListOptions) (names : NameKind)
    (current : Entry) (components : List String) :
    Follows R carried (Tree.follow { opts with policy := policy } names current components)
      (Tree.follow { opts with policy := policy' } names current components) := by
  induction components generalizing current with
  | nil => exact .pure current
  | cons component rest ih =>
    refine (h.list opts current).bind fun entries => ?_
    split
    · exact ih _
    · exact .throw _

/-- A path is looked up alike from the root, under either kind of names. -/
theorem lookup (h : ReadsFollow R carried policy policy') (volume : Volume) (opts : ListOptions)
    (names : NameKind) (path : String) :
    Follows R carried (Tree.lookup volume { opts with policy := policy } names path)
      (Tree.lookup volume { opts with policy := policy' } names path) := by
  have hfollow := h.follow opts names (volume.rootEntry opts) (pathComponents path)
  rw [Tree.lookup, Tree.lookup]
  dsimp only
  split
  · exact .bind (.throw _) fun _ => hfollow
  · exact hfollow

/-- The searches list the same directories in the same order, because what is still to be listed
depends on what was found only. -/
theorem searchOwner (h : ReadsFollow R carried policy policy') (opts : ListOptions) (lsn : UInt32)
    (f : Tree.Frontier) :
    Follows R carried (Tree.searchOwner { opts with policy := policy } lsn f)
      (Tree.searchOwner { opts with policy := policy' } lsn f) := by
  induction hremaining : f.remaining using Nat.strongRecOn generalizing f with
  | ind n ih =>
    rw [Tree.searchOwner, Tree.searchOwner]
    split
    · exact .throw _
    · next path directory waiting hwaiting =>
      refine (h.list opts directory).bind fun entries => ?_
      split
      · exact .pure _
      -- A directory fewer is left to be listed on both sides.
      · next g hvisit =>
        have hless := Tree.Frontier.remaining_visit_le hvisit
        simp only [Tree.Frontier.remaining, List.length_cons, hwaiting] at hless hremaining
        exact ih g.remaining (by simp only [Tree.Frontier.remaining]; omega) g rfl

/-- The search for the owner of a sector visits the same directories and ends alike. -/
theorem ownerWithPath (h : ReadsFollow R carried policy policy') (volume : Volume)
    (opts : ListOptions) (lsn : UInt32) :
    Follows R carried (Tree.ownerWithPath volume { opts with policy := policy } lsn)
      (Tree.ownerWithPath volume { opts with policy := policy' } lsn) := by
  have hroot (policy : EndianPolicy) :
      volume.rootEntry { opts with policy := policy } = volume.rootEntry opts := rfl
  rw [Tree.ownerWithPath, Tree.ownerWithPath, hroot policy, hroot policy']
  split
  · exact .pure _
  · exact h.searchOwner { opts with includeDots := false } lsn _

/-- The owner of a sector is found alike, with its path left out. -/
theorem owner (h : ReadsFollow R carried policy policy') (volume : Volume) (opts : ListOptions)
    (lsn : UInt32) :
    Follows R carried (Tree.owner volume { opts with policy := policy } lsn)
      (Tree.owner volume { opts with policy := policy' } lsn) :=
  (h.ownerWithPath volume opts lsn).bind fun _ => .pure _

end ReadsFollow

end Ecma119
