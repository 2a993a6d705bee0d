import Ecma119.Numeric
import Ecma119.Text.Charset

/-!
# Joliet text

Joliet identifiers are sequences of 16-bit units, most significant byte first. Characters outside
the basic plane are pairs of surrogates; a surrogate that has no partner reads as the replacement
character. Trailing spaces and NULs are padding and are not part of the text.
-/

namespace Ecma119.Ucs2

/-- The units that record a character: one, or two surrogates for a character beyond the first 65536. -/
def unitsOfChar (c : Char) : List UInt16 :=
  if c.toNat < 0x10000 then [UInt16.ofNat c.toNat]
  else
    let offset := c.toNat - 0x10000
    [UInt16.ofNat (0xD800 + offset / 0x400), UInt16.ofNat (0xDC00 + offset % 0x400)]

def isHighSurrogate (u : UInt16) : Bool := 0xD800 ≤ u ∧ u < 0xDC00

def isLowSurrogate (u : UInt16) : Bool := 0xDC00 ≤ u ∧ u < 0xE000

/-- The character that a pair of surrogates stands for. -/
def pairChar (high low : UInt16) : Char :=
  Char.ofNat (0x10000 + (high.toNat - 0xD800) * 0x400 + (low.toNat - 0xDC00))

/-- The characters of a sequence of units. A surrogate without its partner becomes the replacement
character. -/
def charsOfUnits : List UInt16 → List Char
  | [] => []
  | [u] => if isHighSurrogate u || isLowSurrogate u then ['\uFFFD'] else [Char.ofNat u.toNat]
  | u :: v :: rest =>
    if isHighSurrogate u then
      if isLowSurrogate v then pairChar u v :: charsOfUnits rest
      else '\uFFFD' :: charsOfUnits (v :: rest)
    else if isLowSurrogate u then '\uFFFD' :: charsOfUnits (v :: rest)
    else Char.ofNat u.toNat :: charsOfUnits (v :: rest)

/-- The units in a byte string; an odd byte at the end belongs to none. -/
def unitsOfBytes : Bytes → List UInt16
  | high :: low :: rest => UInt16.ofNat (ByteOrder.big.value [high, low]) :: unitsOfBytes rest
  | _ => []

/-- Whether the character at the end of an identifier is padding. -/
def isPadding (c : Char) : Bool := c = ' ' || c = '\x00'

/-- The text of a recorded identifier. Units that make no character are replaced, and padding at the end
is dropped. -/
def decode (bytes : Bytes) : String :=
  String.ofList (dropTrailing isPadding (charsOfUnits (unitsOfBytes bytes)))

/-- The bytes that record a text, two for each unit. It is not padded, and nothing of it is lost. -/
def encode (s : String) : Bytes :=
  (s.toList.flatMap unitsOfChar).flatMap ByteOrder.big.bytes16

end Ecma119.Ucs2
