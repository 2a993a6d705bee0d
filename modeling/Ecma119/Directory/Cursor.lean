import Ecma119.Directory.Record

/-!
# Walking a directory extent

Records stand one after the other and do not cross a sector boundary; a zero where a length should be
means that the rest of the sector is padding. A `Cursor` is a place in the extent together with the
bytes from there on. The walk ends at the end of the extent or at the first record that cannot be
read, whose fault is the last thing it gives.
-/

namespace Ecma119

/-- A place in a directory extent. -/
structure Cursor where
  /-- The number of bytes before the place; past the extent if padding was passed over there. -/
  offset : Nat
  /-- The bytes from the place on. -/
  rest : Bytes
deriving DecidableEq

/-- What a walk gives: a record and its offset, or the fault that ends the walk. -/
abbrev WalkItem := Except FormatError (Nat × DirectoryRecord)

namespace Cursor

def ofExtent (extent : Bytes) : Cursor := ⟨0, extent⟩

def advance (c : Cursor) (count : Nat) : Cursor := ⟨c.offset + count, c.rest.drop count⟩

/-- The first place from here on where a record or the end of the extent is. -/
def skipPadding (c : Cursor) : Cursor :=
  match _hrest : c.rest with
  | 0 :: _ => skipPadding (c.advance (remainingInSector c.offset))
  | _ => c
termination_by c.rest.length
decreasing_by
  have := remainingInSector_pos c.offset
  simp only [advance, List.length_drop, _hrest, List.length_cons]
  omega

/-- Reads the record at `c`, whose length is `length`. A fault puts the cursor at the end. -/
def readRecord (policy : EndianPolicy) (c : Cursor) (length : Nat) : WalkItem × Cursor :=
  let data := c.rest.take length
  if data.length < length ∨ remainingInSector c.offset < length then
    (.error .truncatedRecord, c.advance c.rest.length)
  else
    match DirectoryRecord.parse policy data with
    | .ok record => (.ok (c.offset, record), c.advance length)
    | .error cause => (.error cause, c.advance c.rest.length)

/-- The next item of the walk, if there is one, and the place behind it. -/
def next (policy : EndianPolicy) (c : Cursor) : Option WalkItem × Cursor :=
  let c := c.skipPadding
  match c.rest with
  | [] => (none, c)
  | length :: _ =>
    let (item, c) := c.readRecord policy length.toNat
    (some item, c)

/-- Padding that is passed over leaves no more bytes than there were, which is why a walk comes to an
end. -/
theorem length_skipPadding_le (c : Cursor) : c.skipPadding.rest.length ≤ c.rest.length := by
  fun_induction skipPadding c with
  | case1 c _ h ih =>
    refine Nat.le_trans ih ?_
    simp [advance]
  | case2 => exact Nat.le_refl _

/-- Padding is passed over completely: what is left is empty or starts with the length of a record. -/
theorem rest_skipPadding_ne_zero (c : Cursor) (tail : Bytes) :
    c.skipPadding.rest ≠ 0 :: tail := by
  fun_induction skipPadding c with
  | case1 c _ h ih => exact ih
  | case2 c h => exact h tail

/-- Every item takes at least one byte, a fault included, so that a walk has no more items than bytes. -/
theorem length_next_lt {policy : EndianPolicy} {c c' : Cursor} {item : WalkItem}
    (h : c.next policy = (some item, c')) : c'.rest.length < c.rest.length := by
  have hle := c.length_skipPadding_le
  unfold next at h
  dsimp only at h
  split at h
  · simp at h
  · next b tail hrest =>
    have hb : b.toNat ≠ 0 := fun hb0 =>
      have hzero : b = 0 := UInt8.toNat_inj.1 hb0
      c.rest_skipPadding_ne_zero tail (by rw [hrest, hzero])
    have hpos : 0 < c.skipPadding.rest.length := by simp [hrest]
    obtain ⟨_, rfl⟩ : _ ∧ (c.skipPadding.readRecord policy b.toNat).2 = c' := by simpa using h
    unfold readRecord
    dsimp only
    split
    · simp [advance]; omega
    · split <;> simp [advance] <;> omega

/-- The items of the walk from here on: the records with their places, and a fault as the last of them if
one is met. -/
def items (policy : EndianPolicy) (c : Cursor) : List WalkItem :=
  match _hnext : c.next policy with
  | (none, _) => []
  | (some item, c') => item :: c'.items policy
termination_by c.rest.length
decreasing_by exact length_next_lt _hnext

end Cursor

/-- The records of a directory extent with their offsets, and the fault that ends them if any. -/
def recordsOf (policy : EndianPolicy) (extent : Bytes) : List WalkItem :=
  (Cursor.ofExtent extent).items policy

end Ecma119
