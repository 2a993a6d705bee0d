import Ecma119.Directory.Cursor
import Ecma119.Name
import Ecma119.SystemUse
import Ecma119.Text.Ucs2

/-!
# Directory entries

An entry is what a directory tells about one file or directory: its names, where it lies and its
attributes. `Entry.ofRecord` makes one from a single record.

A file in several extents has a record for each of them, all but the last flagged as continued. Such
records have to follow each other under one identifier, and together they make one entry when the
directory is listed.
-/

namespace Ecma119

/-- What an entry describes. -/
inductive EntryKind where
  | file
  | directory
deriving DecidableEq

/-- A file or directory as its directory describes it. -/
structure Entry where
  kind : EntryKind
  /-- The name that is shown. -/
  name : String
  /-- The text of the recorded identifier. -/
  rawName : String
  /-- The number of bytes. -/
  size : Nat
  /-- Where the bytes are, in the order of the file. -/
  extents : List Extent
  flags : FileFlags
  xa : Option XaAttributes
  /-- When it was recorded, if a time is given that is one. -/
  timestamp : Option ZonedTime
  volumeSequenceNumber : UInt16
deriving DecidableEq

namespace Entry

/-- The logical sector at which the first extent starts, or 0 if there is none. -/
def lsn (e : Entry) : UInt32 := (e.extents.head?.map Extent.lsn).getD 0

/-- The number of sectors in all extents, as a number of 32 bits: with more than 2047 extents it can wrap
around. -/
def sectorCount (e : Entry) : UInt32 :=
  e.extents.foldl (fun count x => count + x.sectorCount) 0

/-- What follows the last dot of the name that is shown. -/
def extension? (e : Entry) : Option String := Name.extension? e.name

def isFile (e : Entry) : Bool := e.kind = .file

def isDirectory (e : Entry) : Bool := e.kind = .directory

def isHidden (e : Entry) : Bool := e.flags.isHidden

def isMultiExtent (e : Entry) : Bool := 1 < e.extents.length

/-- Whether one of its extents has the sector. The other sectors of a chain of extents are not the
file's. -/
def containsLsn (e : Entry) (lsn : UInt32) : Bool := e.extents.any fun x => x.contains lsn

end Entry

structure ListOptions where
  policy : EndianPolicy := .strict
  /-- Whether the records of the directory itself and of its parent are listed. -/
  includeDots : Bool := false
  /-- Whether identifiers are Joliet text. -/
  joliet : Bool := false
  /-- Whether Rock Ridge names take the place of identifiers. -/
  rockRidge : Bool := false
deriving DecidableEq

namespace DirectoryRecord

/-- The text of the identifier; a dot and two dots stand for the directory itself and its parent. -/
def rawName (r : DirectoryRecord) (joliet : Bool) : String :=
  if r.isSelf then "."
  else if r.isParent then ".."
  else if joliet then Ucs2.decode r.name
  else Utf8.decodeLossy r.name

/-- The name that is shown: an alternate name where one is given and asked for, and else the identifier
as it is displayed, where Joliet names keep their case. -/
def displayName (r : DirectoryRecord) (opts : ListOptions) : String :=
  if r.isDot then r.rawName opts.joliet
  else
    match if opts.rockRidge then RockRidge.alternateName? r.systemUse else none with
    | some alternate => alternate.name
    | none => Name.display opts.joliet (r.rawName opts.joliet)

end DirectoryRecord

/-- The entry that a single record makes, with one extent. Records that go on add theirs to it later. -/
def Entry.ofRecord (opts : ListOptions) (r : DirectoryRecord) : Entry where
  kind := if r.flags.isDirectory then .directory else .file
  name := r.displayName opts
  rawName := r.rawName opts.joliet
  size := r.size.toNat
  extents := [⟨r.extent, r.size⟩]
  flags := r.flags
  xa := XaAttributes.parse r.systemUse
  timestamp := r.time.toOption.join
  volumeSequenceNumber := r.volumeSequenceNumber

/-! ## Listing a directory -/

/-- Joins a record's entry to the chain that is open before it. A chain is of one identifier and one
kind; it takes its names and attributes from its first record and its flags from its last. -/
def Entry.joinTo (entry : Entry) : (chain : Option Entry) → Except FormatError Entry
  | none => .ok entry
  | some head =>
    if head.rawName = entry.rawName ∧ head.kind = entry.kind then
      .ok { head with
        size := head.size + entry.size
        extents := head.extents ++ entry.extents
        flags := entry.flags }
    else .error .multiExtentMismatch

/-- The entries of the records of a walk, where `chain` is the entry that is to be continued. -/
def assemble (opts : ListOptions) :
    (chain : Option Entry) → List WalkItem → Except FormatError (List Entry)
  | none, [] => .ok []
  | some _, [] => .error .multiExtentMismatch
  | _, .error cause :: _ => .error cause
  | chain, .ok (_, record) :: rest =>
    if record.isDot && chain.isSome then .error .multiExtentMismatch
    else if record.isDot && !opts.includeDots then assemble opts chain rest
    else do
      let entry ← (Entry.ofRecord opts record).joinTo chain
      if record.flags.isMultiExtent then assemble opts (some entry) rest
      else return entry :: (← assemble opts none rest)

/-- The entries of a directory extent, in the order of their records. Any fault of the records fails the
listing. -/
def parseDirectory (opts : ListOptions) (extent : Bytes) : Except FormatError (List Entry) :=
  assemble opts none (recordsOf opts.policy extent)

end Ecma119
