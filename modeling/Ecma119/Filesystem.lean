import Ecma119.File
import Ecma119.PathTable
import Ecma119.Tree.Owner
import Ecma119.Volume.Search

/-!
# File systems

A `Filesystem` is a source, the options with which it is read, and the volume on it once that has been
read. Operations that need the volume read it first. An operation that fails keeps the volume that
was there.
-/

namespace Ecma119

structure Filesystem (δ : Type) where
  source : SectorSource δ
  options : MountOptions
  /-- The volume, once its descriptors have been read. -/
  volume : Option Volume

/-- Work with a file system that can fail; what became of the file system is kept either way. -/
abbrev FilesystemM (δ : Type) := ExceptT Error (StateM (Filesystem δ))

namespace Filesystem

variable {δ : Type} [BlockDevice δ]

/-- Work with the source of a file system. The source is kept as the work leaves it, and with it what is
known of the device. -/
def onSource {α : Type} (work : StateM (SectorSource δ) α) : StateM (Filesystem δ) α := do
  let (result, source) := work.run (← get).source
  modify fun fs => { fs with source }
  return result

/-- Work with the source of a file system that can fail. A failure too keeps the source as the work
leaves it. -/
def fromSource {α : Type} (work : SourceM δ α) : FilesystemM δ α :=
  ExceptT.mk (onSource work.run)

/-! ## Opening -/

/-- A device that has not been read yet, with bare sectors. It has no volume until its descriptors have
been read. -/
def ofDevice (device : δ) (options : MountOptions) : Filesystem δ where
  source := .ofDevice device
  options
  volume := none

/-- Reads the descriptor set under the framing in use and keeps the volume. If that fails, the volume
that was kept before stays. -/
def readVolume : FilesystemM δ Volume := do
  let fs ← get
  let volume ← fromSource (Volume.read fs.options)
  modify fun fs => { fs with volume := some volume }
  return volume

/-- Finds the framing of the image and reads the volume under it. -/
def searchVolume (limit : Nat) : FilesystemM δ Volume := do
  let fs ← get
  let (_, volume) ← fromSource (Volume.search fs.options limit)
  modify fun fs => { fs with volume := some volume }
  return volume

/-- The file system on a device after the work that opens it. -/
def opened (device : δ) (options : MountOptions) (work : FilesystemM δ Volume) :
    Except Error (Filesystem δ) :=
  match work.run.run (ofDevice device options) with
  | (.ok _, fs) => .ok fs
  | (.error failure, _) => .error failure

/-- The file system on a device with bare sectors, its volume read. -/
def mount (device : δ) (options : MountOptions) : Except Error (Filesystem δ) :=
  opened device options readVolume

/-- The file system on a device whose framing has to be found, its volume read. -/
def mountAnyFraming (device : δ) (options : MountOptions) (limit : Nat) :
    Except Error (Filesystem δ) :=
  opened device options (searchVolume limit)

/-! ## What is known -/

def framing (fs : Filesystem δ) : Framing := fs.source.framing

/-- The number of the Joliet level in use, 0 if there is none or the volume has not been read. -/
def jolietLevel (fs : Filesystem δ) : Nat := (fs.volume.map Volume.jolietLevel).getD 0

def hasRockRidge (fs : Filesystem δ) : Bool := (fs.volume.map Volume.hasRockRidge).getD false

/-- The volume, which is read unless it has been, and how its directories are listed. -/
def ready : FilesystemM δ (Volume × ListOptions) := do
  let fs ← get
  let volume ←
    match fs.volume with
    | some volume => pure volume
    | none => readVolume
  return (volume, .forVolume volume fs.options)

/-! ## The tree -/

/-- The entry at a path, looked up from the root by names of one kind. -/
def stat (path : String) (names : NameKind) : FilesystemM δ Entry := do
  let (volume, opts) ← ready
  fromSource (Tree.lookup volume opts names path)

/-- The entries of the directory at a path. Its components are looked up by the names that are shown. -/
def readdir (path : String) : FilesystemM δ (List Entry) := do
  let (volume, opts) ← ready
  let directory ← fromSource (Tree.lookup volume opts .display path)
  fromSource (Tree.list opts directory)

/-- The entries of the directory that lies in an extent, listed as the volume and the options ask for. -/
def readDirectory (lsn size : UInt32) : FilesystemM δ (List Entry) := do
  let (_, opts) ← ready
  fromSource (Tree.readDirectory opts lsn size)

/-- The entry that has a sector, with its path. Entries are gone through breadth first, and the first
that has it is taken. -/
def ownerWithPath (lsn : UInt32) : FilesystemM δ (String × Entry) := do
  let (volume, opts) ← ready
  fromSource (Tree.ownerWithPath volume opts lsn)

def owner (lsn : UInt32) : FilesystemM δ Entry := do
  let (volume, opts) ← ready
  fromSource (Tree.owner volume opts lsn)

/-! ## Files and sectors -/

/-- The bytes of a file. The volume is not needed for that, and is not read if it has not been. -/
def readContent (file : Entry) : FilesystemM δ Bytes := fromSource file.content

/-- Reads a file into a buffer: the number of bytes or the failure, and the buffer afterwards. -/
def readInto (file : Entry) (buffer : Bytes) :
    StateM (Filesystem δ) (Except Error Nat × Bytes) :=
  onSource (file.readInto buffer)

/-- The next `count` sectors, whatever is in them: like the content of a file, these need no volume. -/
def readSectors (lsn count : UInt32) : FilesystemM δ Bytes :=
  fromSource (SectorSource.readSectors lsn count)

/-! ## The path table -/

/-- Fails unless the tables of the two types have the same entries. What differs is reported: the
numbers of entries, or else the extents of the first two entries that are not the same. -/
def agree (typeL typeM : List PathTableEntry) : Except FormatError Unit :=
  if typeL.length ≠ typeM.length then
    .error (.endianMismatch (UInt32.ofNat typeL.length) (UInt32.ofNat typeM.length))
  else
    match (typeL.zip typeM).find? fun (l, m) => l ≠ m with
    | some (l, m) => .error (.endianMismatch l.extent m.extent)
    | none => .ok ()

/-- The entries of the stored path table at a location. -/
def readStoredTable (order : ByteOrder) (lsn size : UInt32) : SourceM δ (List PathTableEntry) := do
  let sectors ← SectorSource.readSectors lsn (sectorsForBytes size.toNat)
  readPathTable order (sectors.take size.toNat)

/-- The path table, which has to be the same in both byte orders where both are recorded. -/
def pathTable : FilesystemM δ PathTable := do
  let (volume, _) ← ready
  let d := volume.active
  let entries ← fromSource (readStoredTable .little d.typeLPathTable d.pathTableSize)
  if d.typeMPathTable ≠ 0 then
    let others ← fromSource (readStoredTable .big d.typeMPathTable d.pathTableSize)
    fromSource (agree entries others)
  return PathTable.ofList entries

end Filesystem

end Ecma119
