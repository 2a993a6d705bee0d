import Ecma119.Directory.Entry
import Ecma119.Volume.Descriptor
import Ecma119.Volume.Options

/-!
# A volume

What the descriptor set tells about a volume. If it has a Joliet descriptor that is made use of, that
one's directories and texts come first.
-/

namespace Ecma119

structure Volume where
  primary : VolumeDescriptor
  /-- The Joliet descriptor that is made use of. -/
  joliet : Option VolumeDescriptor
  /-- Whether the root directory has Rock Ridge entries that are made use of. -/
  hasRockRidge : Bool
deriving DecidableEq

namespace Volume

/-- The descriptor whose directories are read: the Joliet one where there is one, and else the primary.
-/
def active (v : Volume) : VolumeDescriptor := v.joliet.getD v.primary

/-- The number of the Joliet level in use, 0 if there is none. -/
def jolietLevel (v : Volume) : Nat :=
  ((v.joliet.bind VolumeDescriptor.jolietLevel?).map JolietLevel.number).getD 0

def root (v : Volume) : DirectoryRecord := v.active.root

/-- The volume's name: that of the descriptor in use, or that of the primary one where it is empty. -/
def volumeId (v : Volume) : String :=
  let id := v.active.text .volume
  if id.isEmpty then v.primary.text .volume else id

/-- The entry of the root directory, which is shown as a slash. -/
def rootEntry (v : Volume) (opts : ListOptions) : Entry :=
  { Entry.ofRecord opts v.root with name := "/" }

end Volume

/-- How the directories of a volume are listed. Joliet names take precedence over Rock Ridge names. -/
def ListOptions.forVolume (v : Volume) (options : MountOptions) : ListOptions where
  policy := options.policy
  includeDots := options.includeDots
  joliet := v.jolietLevel ≠ 0
  rockRidge := v.hasRockRidge && v.jolietLevel = 0

end Ecma119
