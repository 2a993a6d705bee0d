/-!
# Failures

What can go wrong when a volume is read or authored. `FormatError` is a fault of recorded bytes, or
of a value that does not fit where it is to be recorded; `Error` adds the failures of the device and
of a search. `FormatError.message` and `Error.message` hold every wording.
-/

namespace Ecma119

/-- A fault of recorded bytes, or of a value that cannot be recorded. -/
inductive FormatError where
  /-- A volume descriptor without the standard identifier. -/
  | badSignature
  /-- A volume descriptor of a version its type does not have. -/
  | unsupportedVersion (version : UInt8)
  /-- The two halves of a both-byte-order number differ. -/
  | endianMismatch (le be : UInt32)
  /-- A volume descriptor of a type that may not stand here. -/
  | unexpectedDescriptorType (code : UInt8)
  /-- No volume was found under any framing tried. -/
  | superblockNotFound
  /-- The descriptor set goes on past the number of sectors that are looked at. -/
  | missingTerminator
  /-- A record's lengths contradict each other or the bytes there are. -/
  | truncatedRecord
  /-- A name that is empty or has a character outside its set. -/
  | invalidName
  /-- `len` bytes are to go where `max` bytes have room. -/
  | fieldOverflow (len max : Nat)
  /-- A path of more than 255 bytes. -/
  | pathTooLong
  /-- A path table entry whose parent does not stand before it. -/
  | recordOrderingViolation
  /-- A time that is no calendar time, or that the form cannot hold. -/
  | invalidTimestamp
  /-- A multi-extent file whose records do not follow each other. -/
  | multiExtentMismatch
  /-- A directory extent without room for the record. -/
  | directoryFull
deriving DecidableEq

/-- Any failure of reading or authoring a volume. -/
inductive Error where
  /-- The recorded bytes are at fault. -/
  | format (cause : FormatError)
  /-- The device failed, or was asked for what it does not have. -/
  | io (lba : Nat) (message : String)
  /-- No entry of that path, or none that owns that sector. -/
  | notFound
  /-- A file stands where a directory is needed. -/
  | notADirectory
deriving DecidableEq

/-- A number in base sixteen, lower case, without leading zeros and behind `0x`. -/
def hexText (n : Nat) : String :=
  "0x" ++ String.ofList (Nat.toDigits 16 n)

def FormatError.message : FormatError → String
  | .badSignature => "invalid volume descriptor signature"
  | .unsupportedVersion version =>
    "unsupported volume descriptor version " ++ toString version.toNat
  | .endianMismatch le be =>
    "both-endian field disagrees (le=" ++ hexText le.toNat ++ ", be=" ++ hexText be.toNat ++ ")"
  | .unexpectedDescriptorType code => "unexpected volume descriptor type " ++ toString code.toNat
  | .superblockNotFound => "no ISO9660 superblock found"
  | .missingTerminator => "volume descriptor set terminator missing"
  | .truncatedRecord => "truncated or overlong record"
  | .invalidName => "invalid name"
  | .fieldOverflow len max =>
    "field overflow: " ++ toString len ++ " bytes into a " ++ toString max ++ " byte field"
  | .pathTooLong => "path exceeds maximum length"
  | .recordOrderingViolation => "path table parent ordering violated"
  | .invalidTimestamp => "invalid timestamp"
  | .multiExtentMismatch => "multi-extent chain broken"
  | .directoryFull => "directory extent full"

def Error.message : Error → String
  | .format cause => cause.message
  | .io lba message => "I/O error at block " ++ toString lba ++ ": " ++ message
  | .notFound => "file or directory not found"
  | .notADirectory => "not a directory"

/-- The fault of recorded bytes behind a failure, if that is what it was. -/
def Error.cause? : Error → Option FormatError
  | .format cause => some cause
  | _ => none

end Ecma119
