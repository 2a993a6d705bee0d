import Ecma119.Directory.Entry
import Ecma119.Source
import Ecma119.Volume.Mounted

/-!
# Looking up a path

A path is followed from the root directory, one component after the other. Empty components do not
count, and the case of ASCII letters makes no difference.
-/

namespace Ecma119

/-- The parts of a list between the elements equal to `x`, which may be empty. There is always one more
than there are such elements. -/
def splitAtEach {α : Type} [DecidableEq α] (x : α) : List α → List (List α)
  | [] => [[]]
  | y :: rest =>
    if y = x then [] :: splitAtEach x rest
    else
      match splitAtEach x rest with
      | [] => [[y]]
      | part :: parts => (y :: part) :: parts

def pathComponents (path : String) : List String :=
  ((splitAtEach '/' path.toList).filter fun part => !part.isEmpty).map String.ofList

def maxLookupLength : Nat := 255

/-- By which of its names an entry is looked up. -/
inductive NameKind where
  /-- The name that is shown. -/
  | display
  /-- The recorded identifier. -/
  | recorded
deriving DecidableEq

namespace Entry

/-- The name of an entry that is of this kind, which is what a path or a lookup goes by. -/
def nameOf (e : Entry) : NameKind → String
  | .display => e.name
  | .recorded => e.rawName

/-- The extent in which a directory is listed: the first one it has. -/
def directoryExtent (e : Entry) : Except Error Extent :=
  if e.isDirectory then
    match e.extents.head? with
    | some extent => .ok extent
    | none => .error .notADirectory
  else .error .notADirectory

end Entry

namespace Tree

variable {δ : Type} [BlockDevice δ]

/-- The entries of the directory that lies in an extent. Bytes of the last sector behind its size are not
looked at. -/
def readDirectory (opts : ListOptions) (lsn size : UInt32) : SourceM δ (List Entry) := do
  let sectors ← SectorSource.readSectors lsn (sectorsForBytes size.toNat)
  parseDirectory opts (sectors.take size.toNat)

/-- The entries of a directory, which are those in the first of its extents. -/
def list (opts : ListOptions) (directory : Entry) : SourceM δ (List Entry) := do
  let extent ← ExceptT.mk (pure directory.directoryExtent)
  readDirectory opts extent.lsn extent.size

/-- Follows components from an entry on. The first entry with a name is taken. -/
def follow (opts : ListOptions) (names : NameKind) (current : Entry) :
    List String → SourceM δ Entry
  | [] => return current
  | component :: rest => do
    let entries ← list opts current
    match entries.find? fun e => Name.sameIgnoringCase (e.nameOf names) component with
    | some entry => follow opts names entry rest
    | none => throw .notFound

/-- The entry at a path. Empty components are passed over, and a path of more than 255 bytes is refused.
-/
def lookup (volume : Volume) (opts : ListOptions) (names : NameKind) (path : String) :
    SourceM δ Entry := do
  if maxLookupLength < path.utf8ByteSize then throw (.format .pathTooLong)
  follow opts names (volume.rootEntry opts) (pathComponents path)

end Tree

end Ecma119
