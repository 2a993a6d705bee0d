import Ecma119.Directory.Record
import Ecma119.Text.Charset
import Ecma119.Text.Ucs2
import Ecma119.Time.Long
import Ecma119.Volume.Header
import Ecma119.Volume.Options

/-!
# Volume descriptors

Primary and supplementary descriptors have one layout. `Identifier` and `VolumeTime` name the nine
text fields and the four times in it, so that what holds for each of them can be told once.
-/

namespace Ecma119

structure VolumeDescriptor where
  type : DescriptorType
  version : UInt8
  /-- Given in supplementary descriptors only. -/
  flags : UInt8
  systemId : Field 32
  volumeId : Field 32
  /-- The number of logical blocks in the volume. -/
  volumeSpaceSize : UInt32
  /-- Given in supplementary descriptors only. -/
  escapeSequences : Field 32
  volumeSetSize : UInt16
  volumeSequenceNumber : UInt16
  logicalBlockSize : UInt16
  /-- The number of bytes in a path table. -/
  pathTableSize : UInt32
  /-- The logical sector of the path table of type L. -/
  typeLPathTable : UInt32
  optionalTypeLPathTable : UInt32
  /-- The logical sector of the path table of type M, or 0 if there is none. -/
  typeMPathTable : UInt32
  optionalTypeMPathTable : UInt32
  /-- The record of the root directory. -/
  root : DirectoryRecord
  volumeSetId : Field 128
  publisherId : Field 128
  preparerId : Field 128
  applicationId : Field 128
  copyrightFileId : Field 37
  abstractFileId : Field 37
  bibliographicFileId : Field 37
  creationTime : Field 17
  modificationTime : Field 17
  expirationTime : Field 17
  effectiveTime : Field 17
  fileStructureVersion : UInt8
  /-- At most 512 bytes for the application's own use. -/
  applicationUse : Bytes
deriving DecidableEq

/-! ## Identifiers -/

/-- The text fields of a descriptor, in the order in which they are recorded. -/
inductive Identifier where
  | system
  | volume
  | volumeSet
  | publisher
  | preparer
  | application
  | copyrightFile
  | abstractFile
  | bibliographicFile
deriving DecidableEq

namespace Identifier

/-- All text fields, in the order in which they are recorded. -/
def all : List Identifier :=
  [.system, .volume, .volumeSet, .publisher, .preparer, .application, .copyrightFile, .abstractFile,
    .bibliographicFile]

/-- The number of bytes in a text field. -/
abbrev width : Identifier → Nat
  | .system | .volume => 32
  | .volumeSet | .publisher | .preparer | .application => 128
  | .copyrightFile | .abstractFile | .bibliographicFile => 37

end Identifier

/-- The times of a descriptor, in the order in which they are recorded. -/
inductive VolumeTime where
  | creation
  | modification
  | expiration
  | effective
deriving DecidableEq

/-- All times, in the order in which they are recorded. -/
def VolumeTime.all : List VolumeTime := [.creation, .modification, .expiration, .effective]

namespace VolumeDescriptor

/-- A text field as recorded, its padding included. Nothing is checked of its characters. -/
def identifier (d : VolumeDescriptor) : (i : Identifier) → Field i.width
  | .system => d.systemId
  | .volume => d.volumeId
  | .volumeSet => d.volumeSetId
  | .publisher => d.publisherId
  | .preparer => d.preparerId
  | .application => d.applicationId
  | .copyrightFile => d.copyrightFileId
  | .abstractFile => d.abstractFileId
  | .bibliographicFile => d.bibliographicFileId

/-- The descriptor with another text field, and all else as it was. -/
def withIdentifier (d : VolumeDescriptor) : (i : Identifier) → Field i.width → VolumeDescriptor
  | .system, systemId => { d with systemId }
  | .volume, volumeId => { d with volumeId }
  | .volumeSet, volumeSetId => { d with volumeSetId }
  | .publisher, publisherId => { d with publisherId }
  | .preparer, preparerId => { d with preparerId }
  | .application, applicationId => { d with applicationId }
  | .copyrightFile, copyrightFileId => { d with copyrightFileId }
  | .abstractFile, abstractFileId => { d with abstractFileId }
  | .bibliographicFile, bibliographicFileId => { d with bibliographicFileId }

def timeField (d : VolumeDescriptor) : VolumeTime → Field 17
  | .creation => d.creationTime
  | .modification => d.modificationTime
  | .expiration => d.expirationTime
  | .effective => d.effectiveTime

def withTimeField (d : VolumeDescriptor) : VolumeTime → Field 17 → VolumeDescriptor
  | .creation, creationTime => { d with creationTime }
  | .modification, modificationTime => { d with modificationTime }
  | .expiration, expirationTime => { d with expirationTime }
  | .effective, effectiveTime => { d with effectiveTime }

/-! ## What a descriptor tells -/

/-- The Joliet level that a supplementary descriptor announces, if it does. -/
def jolietLevel? (d : VolumeDescriptor) : Option JolietLevel :=
  if d.type = .supplementary then JolietLevel.ofEscapes? d.escapeSequences.toList else none

/-- The text of a field: Joliet text in a Joliet descriptor, otherwise without trailing spaces. -/
def text (d : VolumeDescriptor) (i : Identifier) : String :=
  if d.jolietLevel?.isSome then Ucs2.decode (d.identifier i).toList
  else trimmedText (d.identifier i).toList

/-- A time, if it is given. -/
def time (d : VolumeDescriptor) (t : VolumeTime) : Except FormatError (Option ZonedTime) :=
  decodeLongTime (d.timeField t)

def rootLsn (d : VolumeDescriptor) : UInt32 := d.root.extent

def rootSize (d : VolumeDescriptor) : UInt32 := d.root.size

/-! ## Descriptors to be authored -/

/-- The length of the application's area. -/
def applicationUseLength : Nat := 512

/-- A descriptor with blank text fields and without times. What it leaves at zero is for the author to
fill in. -/
def blank (type : DescriptorType) (root : DirectoryRecord) : VolumeDescriptor where
  type
  version := 1
  flags := 0
  systemId := Field.filled 32 0x20
  volumeId := Field.filled 32 0x20
  volumeSpaceSize := 0
  escapeSequences := Field.filled 32 0
  volumeSetSize := 1
  volumeSequenceNumber := 1
  logicalBlockSize := 2048
  pathTableSize := 0
  typeLPathTable := 0
  optionalTypeLPathTable := 0
  typeMPathTable := 0
  optionalTypeMPathTable := 0
  root
  volumeSetId := Field.filled 128 0x20
  publisherId := Field.filled 128 0x20
  preparerId := Field.filled 128 0x20
  applicationId := Field.filled 128 0x20
  copyrightFileId := Field.filled 37 0x20
  abstractFileId := Field.filled 37 0x20
  bibliographicFileId := Field.filled 37 0x20
  creationTime := LongTime.unset
  modificationTime := LongTime.unset
  expirationTime := LongTime.unset
  effectiveTime := LongTime.unset
  fileStructureVersion := 1
  applicationUse := Bytes.zeros applicationUseLength

/-- A blank supplementary descriptor that announces Joliet. The identifiers of the system and of the
volume are spaces of two bytes, the other text fields spaces of one. -/
def blankJoliet (level : JolietLevel) (root : DirectoryRecord) : VolumeDescriptor :=
  let spaces : Field 32 := Field.ofBytes 32 (Ucs2.encode (String.ofList (List.replicate 16 ' '))) 0
  { blank .supplementary root with
    systemId := spaces
    volumeId := spaces
    escapeSequences := Field.ofBytes 32 level.escape 0 }

end VolumeDescriptor

end Ecma119
