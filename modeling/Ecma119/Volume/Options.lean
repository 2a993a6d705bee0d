import Ecma119.Numeric

/-!
# Joliet levels and mount options

A supplementary descriptor announces Joliet by an escape sequence, which also tells the level of the
character set. The options of a mount say which levels and which other extensions of the standard are made
use of, and how strict reading is.
-/

namespace Ecma119

/-- The levels of the Joliet character set. -/
inductive JolietLevel where
  | one
  | two
  | three
deriving DecidableEq

namespace JolietLevel

/-- All levels, in their order. -/
def all : List JolietLevel := [.one, .two, .three]

def number : JolietLevel → Nat
  | .one => 1
  | .two => 2
  | .three => 3

def ofNumber? (n : Nat) : Option JolietLevel := all.find? fun level => level.number = n

def escape : JolietLevel → Bytes
  | .one => Bytes.ofAscii "%/@"
  | .two => Bytes.ofAscii "%/C"
  | .three => Bytes.ofAscii "%/E"

/-- The level that a field of escape sequences announces with its first one, if that is for Joliet. -/
def ofEscapes? (escapes : Bytes) : Option JolietLevel :=
  all.find? fun level => level.escape = escapes.take 3

end JolietLevel

/-! ## Options -/

/-- A set of extensions. Bits that stand for none are kept. -/
structure Extensions where
  bits : UInt8
deriving DecidableEq

namespace Extensions

/-- The three Joliet levels and Rock Ridge. -/
def standard : Extensions := ⟨0x0F⟩

def jolietBit : JolietLevel → UInt8
  | .one => 0x01
  | .two => 0x02
  | .three => 0x04

def hasJoliet (x : Extensions) (level : JolietLevel) : Bool := x.bits &&& jolietBit level ≠ 0

def hasRockRidge (x : Extensions) : Bool := x.bits &&& 0x08 ≠ 0

end Extensions

/-- What makes a framing the right one when an image is searched for a volume. -/
inductive Confirmation where
  /-- The whole descriptor set can be read. -/
  | descriptorSet
  /-- The primary descriptor can be read. -/
  | primaryDescriptor
deriving DecidableEq

structure MountOptions where
  extensions : Extensions := .standard
  policy : EndianPolicy := .strict
  confirmation : Confirmation := .descriptorSet
  /-- Whether directory listings have the entries of the directory itself and of its parent. -/
  includeDots : Bool := false
deriving DecidableEq

end Ecma119
