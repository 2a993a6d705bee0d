import Ecma119.Numeric
import Ecma119.Text.Utf8

/-!
# System use areas

Several extensions share the system use area of a directory record. Discs with sectors of mode 2 put an
XA record in front of it. Behind that come entries, each with a signature of two letters, its length and
its version. They end where no further entry fits, or at a terminator; entries that are continued
elsewhere on the volume are not followed. Rock Ridge keeps what a POSIX file system needs in such entries.
-/

namespace Ecma119

/-! ## CD-ROM XA attributes

An XA record has fourteen bytes: owner group, owner user and attributes, each most significant byte
first, the letters `XA`, a file number and five reserved bytes. -/

/-- The attributes of a file on a disc with sectors of mode 2. -/
structure XaAttributes where
  groupId : UInt16
  userId : UInt16
  /-- The attribute word, with its unassigned bits. -/
  attributes : UInt16
  /-- Tells interleaved streams apart. -/
  fileNumber : UInt8
deriving DecidableEq

namespace XaAttributes

def recordLength : Nat := 14

def signature : Bytes := Bytes.ofAscii "XA"

/-- The parts of the record, most significant bytes first. Nothing is asked of them but the letters. -/
def decoder : Decoder XaAttributes := do
  let groupId ← Decoder.u16 .big
  let userId ← Decoder.u16 .big
  let attributes ← Decoder.u16 .big
  Decoder.require ((← Decoder.bytes 2) == signature) .badSignature
  let fileNumber ← Decoder.byte
  let _ ← Decoder.field 5
  return { groupId, userId, attributes, fileNumber }

/-- The attributes at the front of a system use area, if there are any. -/
def parse (systemUse : Bytes) : Option XaAttributes := (decoder.decode systemUse).toOption

def encode (xa : XaAttributes) : Bytes :=
  ByteOrder.big.bytes16 xa.groupId ++ ByteOrder.big.bytes16 xa.userId ++
    ByteOrder.big.bytes16 xa.attributes ++ signature ++ [xa.fileNumber] ++ Bytes.zeros 5

/-- Whether the file is a video or audio stream in sectors of form 2. -/
def isForm2 (xa : XaAttributes) : Bool := xa.attributes &&& 0x1000 ≠ 0

end XaAttributes

/-! ## Entries -/

/-- The two letters that tell what an entry is. -/
abbrev Signature := UInt8 × UInt8

def Signature.ofChars (first second : Char) : Signature := (first.toUInt8, second.toUInt8)

structure SystemUseEntry where
  signature : Signature
  version : UInt8
  /-- What follows the four bytes of the entry's head. -/
  data : Bytes
deriving DecidableEq

namespace SystemUseEntry

def headLength : Nat := 4

/-- The signature of the entry that ends the area. What stands behind it is not looked at. -/
def terminator : Signature := .ofChars 'S' 'T'

/-- The entries of an area from here on, up to the terminator, or to the first whose length cannot be
that of an entry. -/
def entriesFrom : Bytes → List SystemUseEntry
  | s :: t :: length :: version :: rest =>
    let dataLength := length.toNat - headLength
    let data := rest.take dataLength
    if length.toNat < headLength ∨ data.length < dataLength ∨ (s, t) = terminator then []
    else ⟨(s, t), version, data⟩ :: entriesFrom (rest.drop dataLength)
  | _ => []
termination_by area => area.length
decreasing_by
  simp only [List.length_drop, List.length_cons]
  omega

end SystemUseEntry

/-- The entries of a system use area. They start behind an XA record, if the area has one. -/
def systemUseEntries (systemUse : Bytes) : List SystemUseEntry :=
  match XaAttributes.parse systemUse with
  | some _ => SystemUseEntry.entriesFrom (systemUse.drop XaAttributes.recordLength)
  | none => SystemUseEntry.entriesFrom systemUse

/-! ## Rock Ridge

Its presence is told by any of its signatures. The alternate name of a file is in `NM` entries, each of
which can say that the name goes on in the next; the parts are joined before they are read as text. -/

namespace RockRidge

def alternateNameSignature : Signature := .ofChars 'N' 'M'

def signatures : List Signature :=
  [.ofChars 'R' 'R', .ofChars 'P' 'X', .ofChars 'P' 'N', .ofChars 'S' 'L', alternateNameSignature,
    .ofChars 'C' 'L', .ofChars 'P' 'L', .ofChars 'R' 'E', .ofChars 'T' 'F', .ofChars 'E' 'R']

/-- Whether the system use area has Rock Ridge entries, of any kind that is known. -/
def isPresent (systemUse : Bytes) : Bool :=
  (systemUseEntries systemUse).any fun e => signatures.contains e.signature

/-- The flag of a part of a name that goes on in the next entry. -/
def continueFlag : UInt8 := 0x01

/-- The flags of a name that stands for the directory itself or for its parent. -/
def directoryFlags : UInt8 := 0x06

structure AlternateName where
  /-- The flags of the last part. -/
  flags : UInt8
  name : String
deriving DecidableEq

/-- Joins the parts of a name up to the first that does not go on, or to the last there is. The flags
are those of the part joined last. A part without flags spoils the name. -/
def joinParts : List Bytes → Option (UInt8 × Bytes)
  | [] => none
  | [] :: _ => none
  | [flags :: content] => some (flags, content)
  | (flags :: content) :: next :: rest =>
    if flags &&& continueFlag = 0 then some (flags, content)
    else (joinParts (next :: rest)).map fun (last, more) => (last, content ++ more)

/-- The alternate name in a system use area, if there is one and it is not that of the directory
itself or of its parent. -/
def alternateName? (systemUse : Bytes) : Option AlternateName := do
  let parts := (systemUseEntries systemUse).filter fun e => e.signature = alternateNameSignature
  let (flags, content) ← joinParts (parts.map SystemUseEntry.data)
  if flags &&& directoryFlags = 0 then some ⟨flags, Utf8.decodeLossy content⟩ else none

end RockRidge

end Ecma119
