import Ecma119.Numeric
import Ecma119.Sector
import Ecma119.Text.Utf8

/-!
# Path tables

A path table lists every directory of a volume with its extent and the number of its parent, counted
from 1, so that parents come before their children. The volume holds the table in both byte orders.
-/

namespace Ecma119

structure PathTableEntry where
  /-- The identifier; a zero byte for the root. -/
  name : Bytes
  extAttrLength : UInt8
  /-- The logical sector at which the directory starts. -/
  extent : UInt32
  /-- The number of the parent's entry. -/
  parent : UInt16
deriving DecidableEq

namespace PathTableEntry

/-- The length of the part before the identifier. -/
def headLength : Nat := 8

def size (e : PathTableEntry) : Nat := padEven (headLength + e.name.length)

def nameText (e : PathTableEntry) : String := Utf8.decodeLossy e.name

/-- The bytes of an entry, with a zero behind them where its name is odd in length. -/
def encode (order : ByteOrder) (e : PathTableEntry) : Bytes :=
  [UInt8.ofNat e.name.length, e.extAttrLength] ++ order.bytes32 e.extent ++
    order.bytes16 e.parent ++ e.name ++ Bytes.zeros ((headLength + e.name.length) % 2)

/-- An entry's parts, its padding apart: whether a byte of padding follows is seen only with the rest of
the table at hand. -/
def decoder (order : ByteOrder) : Decoder PathTableEntry := do
  let nameLength ← Decoder.byte
  let extAttrLength ← Decoder.byte
  let extent ← Decoder.u32 order
  let parent ← Decoder.u16 order
  let name ← Decoder.bytes nameLength.toNat
  return { name, extAttrLength, extent, parent }

end PathTableEntry

/-- The entries of a stored table, which ends at a zero length or at the end of the bytes. The padding
of the last entry need not be there. -/
def readPathTable (order : ByteOrder) : Bytes → Except FormatError (List PathTableEntry)
  | [] => .ok []
  | b :: rest =>
    if b = 0 then .ok []
    else do
      let entry ← (PathTableEntry.decoder order).decode (b :: rest)
      let entries ← readPathTable order (rest.drop (padEven (8 + b.toNat) - 1))
      return entry :: entries
termination_by bytes => bytes.length
decreasing_by
  simp only [List.length_drop, List.length_cons]
  omega

/-- A path table, whatever its byte order. -/
structure PathTable where
  entries : Array PathTableEntry
deriving DecidableEq

namespace PathTable

def empty : PathTable := ⟨#[]⟩

def ofList (entries : List PathTableEntry) : PathTable := ⟨entries.toArray⟩

def toList (t : PathTable) : List PathTableEntry := t.entries.toList

def length (t : PathTable) : Nat := t.entries.size

def isEmpty (t : PathTable) : Bool := t.entries.isEmpty

/-- Whether `parent` may be the parent of the next entry: it stands in the table, or is the root that
comes first, and no entry before names a later parent. -/
def mayFollow (t : PathTable) (parent : UInt16) : Bool :=
  parent ≠ 0 && parent.toNat ≤ max t.length 1 && t.entries.back?.all fun last => last.parent ≤ parent

/-- What keeps a directory of this name and parent from being appended, if anything does. -/
def refusal? (t : PathTable) (name : Bytes) (parent : UInt16) : Option FormatError :=
  if name = [] then some .invalidName
  else if 255 < name.length then some (.fieldOverflow name.length 255)
  else if !t.mayFollow parent then some .recordOrderingViolation
  else if 65535 < t.length + 1 then some (.fieldOverflow (t.length + 1) 65535)
  else none

/-- Appends a directory: its number or what keeps it from being appended, and the table afterwards. -/
def add (t : PathTable) (name : Bytes) (extent : UInt32) (parent : UInt16) :
    Except FormatError UInt16 × PathTable :=
  match t.refusal? name parent with
  | some cause => (.error cause, t)
  | none =>
    let number := UInt16.ofNat (t.length + 1)
    (.ok number, ⟨t.entries.push { name, extAttrLength := 0, extent, parent }⟩)

/-- The number of bytes that the table takes in either byte order. -/
def size (t : PathTable) : Nat := t.toList.foldr (fun e later => e.size + later) 0

/-- The bytes of a table in one byte order, its entries one behind the other. A table has no end mark of
its own. -/
def encode (order : ByteOrder) (t : PathTable) : Bytes :=
  t.toList.flatMap (PathTableEntry.encode order)

end PathTable

end Ecma119
