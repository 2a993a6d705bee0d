import Ecma119.Decoder

/-!
# The head of a volume descriptor

Every volume descriptor starts with its type, the standard identifier `CD001` and a version.
-/

namespace Ecma119

/-- The types of volume descriptors. -/
inductive DescriptorType where
  | bootRecord
  | primary
  | supplementary
  | partition
  | terminator
deriving DecidableEq

namespace DescriptorType

def code : DescriptorType → UInt8
  | .bootRecord => 0
  | .primary => 1
  | .supplementary => 2
  | .partition => 3
  | .terminator => 255

/-- The type with this number, if there is one. -/
def ofCode? (code : UInt8) : Option DescriptorType :=
  if code = 0 then some .bootRecord
  else if code = 1 then some .primary
  else if code = 2 then some .supplementary
  else if code = 3 then some .partition
  else if code = 255 then some .terminator
  else none

theorem ofCode?_code (t : DescriptorType) : ofCode? t.code = some t := by
  cases t <;> rfl

/-- Whether descriptors of the type come in this version; only supplementary ones have a second. -/
def hasVersion : DescriptorType → UInt8 → Bool
  | .supplementary, version => version = 1 || version = 2
  | _, version => version = 1

end DescriptorType

structure DescriptorHeader where
  /-- The number recorded for the type, which need not be that of one. -/
  typeCode : UInt8
  version : UInt8
deriving DecidableEq

namespace DescriptorHeader

def identifier : Bytes := Bytes.ofAscii "CD001"

/-- The parts of the head, with the identifier checked. Its type and version are not, as they are for the
caller to look at. -/
def decoder : Decoder DescriptorHeader := do
  let typeCode ← Decoder.byte
  let recorded ← Decoder.bytes 5
  let version ← Decoder.byte
  Decoder.require (recorded == identifier) .badSignature
  return { typeCode, version }

def parse (data : Bytes) : Except FormatError DescriptorHeader := decoder.decode data

def encode (h : DescriptorHeader) : Bytes := [h.typeCode] ++ identifier ++ [h.version]

/-- The type of the descriptor, if the standard has one of this number. -/
def type? (h : DescriptorHeader) : Option DescriptorType := DescriptorType.ofCode? h.typeCode

/-- Checks that descriptors of the type come in the version that is recorded. -/
def checkVersion (h : DescriptorHeader) (type : DescriptorType) : Except FormatError Unit :=
  if type.hasVersion h.version then .ok () else .error (.unsupportedVersion h.version)

end DescriptorHeader

/-- The sector that ends a descriptor set: its head, and zeros for the rest of the sector. -/
def terminatorSector : Bytes :=
  (DescriptorHeader.mk DescriptorType.terminator.code 1).encode ++ Bytes.zeros 2041

end Ecma119
