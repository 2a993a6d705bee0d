import Ecma119.Proofs.PathTable
import Ecma119.Proofs.Rewriting

/-!
# Path tables as they are stored

A stored table need not be one that was written: what fills an entry up to an even length can be any
byte, and behind the last entry it can be missing. `Stored` tells how entries lie in bytes, and
reading gives exactly the entries that are stored (`readPathTable_eq_ok_iff`). What is read is
therefore written again as it was, padding apart. In the other direction the bytes of a table that
was written can be cut off anywhere. The entries before the cut are read if it lies between two
entries, where the padding counts on either side, and nothing is read otherwise.
-/

namespace Ecma119

/-! ## Decoders that run out of bytes -/

namespace Decoder

variable {α β : Type}

/-- The decoder fails only where bytes are missing, and so never for what the bytes that are there hold.
-/
def FailsShort (d : Decoder α) : Prop :=
  ∀ input cause, d input = .error cause → cause = .truncatedRecord

namespace FailsShort

theorem pure (a : α) : FailsShort (pure a : Decoder α) := nofun

/-- Decoders in a row fail only for want of bytes if each of them does so on every value. -/
theorem bind {part : Decoder α} {next : α → Decoder β} (hpart : FailsShort part)
    (hnext : ∀ a, FailsShort (next a)) : FailsShort (part >>= next) := by
  intro input cause h
  cases hrun : part input with
  | ok p =>
    rw [bind_eq hrun] at h
    exact hnext p.1 p.2 cause h
  | error cause' =>
    rw [bind_error hrun] at h
    cases h
    exact hpart input cause hrun

theorem byte : FailsShort byte := by
  rintro (_ | ⟨b, tail⟩) cause h
  · cases h
    rfl
  · cases h

theorem field (n : Nat) : FailsShort (field n) := by
  intro input cause h
  rw [Decoder.field] at h
  split at h
  · cases h
  · cases h
    rfl

theorem bytes (n : Nat) : FailsShort (bytes n) := (field n).bind fun _ => .pure _

theorem u16 (order : ByteOrder) : FailsShort (u16 order) := (field 2).bind fun _ => .pure _

theorem u32 (order : ByteOrder) : FailsShort (u32 order) := (field 4).bind fun _ => .pure _

/-- A value that is not there is missing bytes: a decoder of this kind fails for no other reason. -/
theorem decode {d : Decoder α} (h : FailsShort d) {input : Bytes} {cause : FormatError}
    (hdecode : d.decode input = .error cause) : cause = .truncatedRecord := by
  have hmap : (d input).map Prod.fst = .error cause := hdecode
  cases hrun : d input with
  | ok p =>
    rw [hrun] at hmap
    cases hmap
  | error cause' =>
    rw [hrun] at hmap
    cases hmap
    exact h input cause hrun

end FailsShort

end Decoder

/-! ## Single entries -/

namespace PathTableEntry

variable {order : ByteOrder} {e : PathTableEntry} {data : Bytes}

/-- Whether a byte fills the entry up to an even length. The last entry of a table may be without it. -/
def IsPadded (e : PathTableEntry) : Prop := (headLength + e.name.length) % 2 = 1

instance (e : PathTableEntry) : Decidable e.IsPadded := inferInstanceAs (Decidable (_ = 1))

/-- The parts of an entry are its head and its name, without what pads them. -/
@[simp] theorem length_parts (order : ByteOrder) (e : PathTableEntry) :
    (e.parts order).length = headLength + e.name.length := by
  simp [parts, ByteOrder.bytes32, ByteOrder.bytes16, headLength]
  omega

/-- An entry takes its parts, and one byte more if it is padded, which is if its name is odd in length.
-/
theorem size_cases (e : PathTableEntry) :
    (e.IsPadded ∧ e.size = headLength + e.name.length + 1) ∨
      (¬ e.IsPadded ∧ e.size = headLength + e.name.length) := by
  unfold IsPadded size padEven
  omega

theorem size_pos (e : PathTableEntry) : 0 < e.size := by
  unfold size padEven headLength
  omega

/-- An entry is read exactly where its parts are, with a name that one byte can tell the length of. -/
theorem decode_eq_ok_iff :
    (decoder order).decode data = .ok e ↔ e.name.length ≤ 255 ∧ e.parts order <+: data := by
  rw [Decoder.decode_eq_ok]
  constructor
  · rintro ⟨rest, hrun⟩
    obtain ⟨nameLength, _, hlength, hrun⟩ := Decoder.bind_eq_ok hrun
    obtain ⟨extAttrLength, _, hattr, hrun⟩ := Decoder.bind_eq_ok hrun
    obtain ⟨extent, _, hextent, hrun⟩ := Decoder.bind_eq_ok hrun
    obtain ⟨parent, _, hparent, hrun⟩ := Decoder.bind_eq_ok hrun
    obtain ⟨name, _, hname, hdone⟩ := Decoder.bind_eq_ok hrun
    cases hdone
    obtain ⟨hnameLength, rfl⟩ := Decoder.bytes_eq_ok_iff_append.mp hname
    have hmax := nameLength.toNat_lt
    refine ⟨by simp only; omega, rest, ?_⟩
    -- what has been read, put together again
    rw [Decoder.byte_eq_ok.mp hlength, Decoder.byte_eq_ok.mp hattr,
      (Decoder.Inverts.u32 order).input_eq hextent, (Decoder.Inverts.u16 order).input_eq hparent]
    simp [parts, hnameLength]
  · rintro ⟨hmax, tail, rfl⟩
    exact Decoder.decode_eq_ok.mp (decode_parts_append order hmax tail)

/-- An entry of a path table is decoded whenever there are enough bytes: nothing else is asked of it. -/
theorem failsShort_decoder (order : ByteOrder) : (decoder order).FailsShort :=
  .bind .byte fun _ => .bind .byte fun _ => .bind (.u32 order) fun _ => .bind (.u16 order) fun _ =>
    .bind (.bytes _) fun _ => .pure _

/-- What is left of an entry that is cut off within its parts is no entry, and reading it fails. -/
theorem readPathTable_take_parts (h : e.IsNamed) {cut : Nat} (hpos : 0 < cut)
    (hcut : cut < (e.parts order).length) :
    readPathTable order ((e.parts order).take cut) = .error .truncatedRecord := by
  obtain ⟨rest, hrest⟩ :
      ∃ rest, (e.parts order).take cut = UInt8.ofNat e.name.length :: rest := by
    obtain ⟨before, rfl⟩ := Nat.exists_eq_add_of_lt hpos
    rw [Nat.zero_add]
    exact ⟨_, rfl⟩
  have hshort : ((e.parts order).take cut).length = cut := List.length_take_of_le (Nat.le_of_lt hcut)
  rw [hrest] at hshort ⊢
  rw [readPathTable, if_neg (nameLength_ne_zero h)]
  cases hdecode : (decoder order).decode (UInt8.ofNat e.name.length :: rest) with
  | ok e' =>
    -- Such an entry would be as long as the one that was cut off.
    obtain ⟨hmax, tail, htail⟩ := decode_eq_ok_iff.mp hdecode
    have hhead : UInt8.ofNat e'.name.length = UInt8.ofNat e.name.length :=
      (List.cons.inj htail).1
    have hsame := congrArg UInt8.toNat hhead
    rw [toNat_nameLength h.2, toNat_nameLength hmax] at hsame
    have hlength := congrArg List.length htail
    rw [List.length_append, length_parts, hshort] at hlength
    rw [length_parts] at hcut
    omega
  | error cause =>
    obtain rfl : cause = .truncatedRecord := (failsShort_decoder order).decode hdecode
    rfl

end PathTableEntry

/-! ## Stored entries -/

/-- The entries lie at the front of the bytes, each behind the even length of the one before it, and
the bytes end behind them or go on with a zero. -/
inductive Stored (order : ByteOrder) : Bytes → List PathTableEntry → Prop
  | ended {behind : Bytes} (h : ∀ b ∈ behind.head?, b = 0) : Stored order behind []
  | entry {data : Bytes} {e : PathTableEntry} {entries : List PathTableEntry} (named : e.IsNamed)
      (front : e.parts order <+: data) (later : Stored order (data.drop e.size) entries) :
      Stored order data (e :: entries)

/-- What is read is what is stored. One way the induction follows the reading, the other way how the
entries are stored. -/
theorem readPathTable_eq_ok_iff {order : ByteOrder} {data : Bytes}
    {entries : List PathTableEntry} :
    readPathTable order data = .ok entries ↔ Stored order data entries := by
  constructor
  · intro h
    fun_induction readPathTable order data generalizing entries with
    | case1 =>
      cases h
      exact .ended nofun
    | case2 =>
      cases h
      exact .ended (by simp)
    | case3 b rest hb ih =>
      obtain ⟨e, hdecode, h⟩ := except_bind_eq_ok h
      obtain ⟨later, hlater, hdone⟩ := except_bind_eq_ok h
      cases hdone
      obtain ⟨hmax, tail, htail⟩ := PathTableEntry.decode_eq_ok_iff.mp hdecode
      have hhead : UInt8.ofNat e.name.length = b := (List.cons.inj htail).1
      have hnamed : e.IsNamed := by
        refine ⟨fun hempty => hb ?_, hmax⟩
        rw [← hhead, hempty]
        rfl
      have hsize : e.size = padEven (8 + b.toNat) - 1 + 1 := by
        rw [← hhead, PathTableEntry.toNat_nameLength hmax, PathTableEntry.size,
          PathTableEntry.headLength]
        unfold padEven
        omega
      refine .entry hnamed ⟨tail, htail⟩ ?_
      rw [hsize, List.drop_succ_cons]
      exact ih hlater
  · intro h
    induction h with
    | ended h => exact readPathTable_end order _ h
    | entry named front later ih =>
      obtain ⟨tail, rfl⟩ := front
      rw [PathTableEntry.readPathTable_parts_append order named, ih]
      rfl

namespace PathTable

variable {order : ByteOrder} {e : PathTableEntry} {entries : List PathTableEntry}

@[simp] theorem encode_nil (order : ByteOrder) : (ofList []).encode order = [] := rfl

/-- Entries are written one behind the other, with nothing between them. -/
@[simp] theorem encode_cons (order : ByteOrder) (e : PathTableEntry)
    (entries : List PathTableEntry) :
    (ofList (e :: entries)).encode order = e.encode order ++ (ofList entries).encode order := by
  simp [encode, toList, ofList]

@[simp] theorem size_nil : (ofList []).size = 0 := rfl

@[simp] theorem size_cons (e : PathTableEntry) (entries : List PathTableEntry) :
    (ofList (e :: entries)).size = e.size + (ofList entries).size := by
  simp [size, toList, ofList]

/-! ## Places in a table -/

/-- The offset behind the first `count` entries, which is where the next one starts, if there is one. -/
def startOf (entries : List PathTableEntry) (count : Nat) : Nat :=
  (ofList (entries.take count)).size

@[simp] theorem startOf_zero (entries : List PathTableEntry) : startOf entries 0 = 0 := rfl

/-- An entry starts behind all entries before it. -/
@[simp] theorem startOf_succ (e : PathTableEntry) (entries : List PathTableEntry) (count : Nat) :
    startOf (e :: entries) (count + 1) = e.size + startOf entries count := by
  simp [startOf]

def EndsPadded (entries : List PathTableEntry) : Prop :=
  ∃ last ∈ entries.getLast?, last.IsPadded

/-- Whether the byte at an offset is the padding of the last of the first `count` entries. -/
def IsPaddingOf (entries : List PathTableEntry) (count offset : Nat) : Prop :=
  EndsPadded (entries.take count) ∧ offset + 1 = startOf entries count

/-- Whether the byte at an offset is padding. -/
def IsPaddingAt (entries : List PathTableEntry) (offset : Nat) : Prop :=
  ∃ count ≤ entries.length, IsPaddingOf entries count offset

/-- Whether the bytes before a cut are those of the first `count` entries, with or without the
padding of the last one. -/
def EndsAt (entries : List PathTableEntry) (count cut : Nat) : Prop :=
  cut = startOf entries count ∨ IsPaddingOf entries count cut

instance (entries : List PathTableEntry) : Decidable (EndsPadded entries) :=
  inferInstanceAs (Decidable (∃ last ∈ entries.getLast?, last.IsPadded))

instance (entries : List PathTableEntry) (count offset : Nat) :
    Decidable (IsPaddingOf entries count offset) :=
  inferInstanceAs (Decidable (_ ∧ _))

instance (entries : List PathTableEntry) (offset : Nat) : Decidable (IsPaddingAt entries offset) :=
  inferInstanceAs (Decidable (∃ count ≤ entries.length, IsPaddingOf entries count offset))

instance (entries : List PathTableEntry) (count cut : Nat) :
    Decidable (EndsAt entries count cut) :=
  inferInstanceAs (Decidable (_ ∨ _))

variable {count offset cut : Nat}

/-- Whether a table ends in padding is told by its last entry. -/
theorem endsPadded_cons (hne : entries ≠ []) : EndsPadded (e :: entries) ↔ EndsPadded entries := by
  obtain ⟨last, hlast⟩ := Option.isSome_iff_exists.mp (List.getLast?_isSome.mpr hne)
  simp [EndsPadded, List.getLast?_cons, hlast]

theorem not_isPaddingOf_zero : ¬ IsPaddingOf entries 0 offset := by
  simp [IsPaddingOf, EndsPadded]

/-- The padding behind some entries is that of the first, or it is behind some of the others. -/
theorem isPaddingOf_succ (hcount : count ≤ entries.length) :
    IsPaddingOf (e :: entries) (count + 1) offset ↔
      (count = 0 ∧ e.IsPadded ∧ offset + 1 = e.size) ∨
        (e.size ≤ offset ∧ IsPaddingOf entries count (offset - e.size)) := by
  cases count with
  | zero =>
    have htake : (e :: entries).take (0 + 1) = [e] := rfl
    simp [IsPaddingOf, htake, EndsPadded]
  | succ count =>
    obtain ⟨next, later, rfl⟩ := List.exists_cons_of_length_pos (Nat.zero_lt_of_lt hcount)
    have hpos := next.size_pos
    have hpadded : EndsPadded ((e :: next :: later).take (count + 1 + 1)) ↔
        EndsPadded ((next :: later).take (count + 1)) :=
      endsPadded_cons (List.cons_ne_nil _ _)
    simp only [IsPaddingOf, hpadded, startOf_succ]
    grind

/-- A byte of a table is padding if it pads the first entry, or lies behind that and is padding among the
others. -/
theorem isPaddingAt_cons :
    IsPaddingAt (e :: entries) offset ↔
      (e.IsPadded ∧ offset + 1 = e.size) ∨
        (e.size ≤ offset ∧ IsPaddingAt entries (offset - e.size)) := by
  constructor
  · rintro ⟨_ | count, hcount, hpadding⟩
    · exact absurd hpadding not_isPaddingOf_zero
    · have hcount : count ≤ entries.length := Nat.le_of_succ_le_succ hcount
      apply ((isPaddingOf_succ hcount).mp hpadding).imp
      · exact And.right
      · exact fun ⟨hle, hlater⟩ => ⟨hle, count, hcount, hlater⟩
  · rintro (hfirst | ⟨hle, count, hcount, hlater⟩)
    · exact ⟨1, Nat.succ_pos _, (isPaddingOf_succ (Nat.zero_le _)).mpr (.inl ⟨rfl, hfirst⟩)⟩
    · exact ⟨count + 1, Nat.succ_le_succ hcount,
        (isPaddingOf_succ hcount).mpr (.inr ⟨hle, hlater⟩)⟩

theorem endsAt_zero : EndsAt entries 0 cut ↔ cut = 0 := by
  simp [EndsAt, not_isPaddingOf_zero]

/-- A cut behind some entries is right before the padding of the first, or behind some of the
others. -/
theorem endsAt_succ (hcount : count ≤ entries.length) :
    EndsAt (e :: entries) (count + 1) cut ↔
      (count = 0 ∧ e.IsPadded ∧ cut + 1 = e.size) ∨
        (e.size ≤ cut ∧ EndsAt entries count (cut - e.size)) := by
  have hstart : cut = startOf (e :: entries) (count + 1) ↔
      e.size ≤ cut ∧ cut - e.size = startOf entries count := by
    rw [startOf_succ]
    omega
  rw [EndsAt, hstart, isPaddingOf_succ hcount, EndsAt]
  grind

/-! ## What has been read, written again -/

section Stored

variable {data : Bytes}

theorem eq_nil_of_stored_nil (h : Stored order [] entries) : entries = [] := by
  cases h with
  | ended => rfl
  | entry _ front => exact absurd (List.prefix_nil.mp front) (List.cons_ne_nil _ _)

/-- Every entry that is stored has a name. -/
theorem isNamed_of_stored (h : Stored order data entries) : ∀ e ∈ entries, e.IsNamed := by
  induction h with
  | ended => simp
  | entry named _ _ ih => exact List.forall_mem_cons.mpr ⟨named, ih⟩

/-- Behind the entries there is nothing, or a zero, which is where reading stops. -/
theorem zero_behind_stored (h : Stored order data entries) :
    ∀ b ∈ (data.drop ((ofList entries).encode order).length).head?, b = 0 := by
  induction h with
  | ended h => simpa using h
  | @entry data e entries _ _ _ ih =>
    rwa [encode_cons, List.length_append, PathTableEntry.length_encode, ← List.drop_drop]

/-- The bytes of the entries are all there but for the padding of the last one, which may be cut off. -/
theorem missing_of_stored (h : Stored order data entries)
    (hmissing : data.length < ((ofList entries).encode order).length) :
    IsPaddingAt entries data.length ∧
      data.length + 1 = ((ofList entries).encode order).length := by
  induction h with
  | ended => simp at hmissing
  | @entry data e entries _ front later ih =>
    rw [encode_cons, List.length_append, PathTableEntry.length_encode] at hmissing ⊢
    rw [List.length_drop] at ih
    have hparts := front.length_le
    rw [PathTableEntry.length_parts] at hparts
    by_cases hsize : e.size ≤ data.length
    · obtain ⟨hpadding, hlength⟩ := ih (by omega)
      exact ⟨isPaddingAt_cons.mpr (.inr ⟨hsize, hpadding⟩), by omega⟩
    · have hnil : data.drop e.size = [] := List.drop_of_length_le (by omega)
      rw [hnil] at later
      obtain rfl := eq_nil_of_stored_nil later
      rcases e.size_cases with ⟨hpadded, hpad⟩ | ⟨-, hpad⟩
      · refine ⟨isPaddingAt_cons.mpr (.inl ⟨hpadded, by omega⟩), ?_⟩
        simp
        omega
      · omega

/-- The bytes of the entries are as they are written, but for padding, which may be anything. -/
theorem getElem?_of_stored (h : Stored order data entries)
    (hoffset : offset < ((ofList entries).encode order).length)
    (hpadding : ¬ IsPaddingAt entries offset) :
    data[offset]? = ((ofList entries).encode order)[offset]? := by
  induction h generalizing offset with
  | ended => simp at hoffset
  | @entry data e entries _ front _ ih =>
    rw [isPaddingAt_cons, not_or] at hpadding
    have hlength := PathTableEntry.length_encode order e
    have hparts := PathTableEntry.length_parts order e
    rw [encode_cons] at hoffset ⊢
    rw [List.length_append, hlength] at hoffset
    by_cases hfront : offset < (e.parts order).length
    · obtain ⟨tail, rfl⟩ := front
      rw [PathTableEntry.encode_eq, List.append_assoc, List.getElem?_append_left hfront,
        List.getElem?_append_left hfront]
    · -- not in the parts and not padding, so behind the first entry
      have hsize : e.size ≤ offset := by
        rcases e.size_cases with ⟨hpadded, hpad⟩ | ⟨-, hpad⟩
        · have hne := mt (And.intro hpadded) hpadding.1
          omega
        · omega
      have hbehind : offset - e.size < ((ofList entries).encode order).length := by omega
      have hlater := ih hbehind fun h => hpadding.2 ⟨hsize, h⟩
      rw [List.getElem?_append_right (by omega), hlength, ← hlater, List.getElem?_drop]
      congr 1
      omega

end Stored

/-! ## Tables that are cut off -/

/-- A cut within the parts of the first entry leaves no entry, and the table is truncated. -/
theorem readPathTable_take_within (he : e.IsNamed) (hpos : 0 < cut)
    (hcut : cut < (e.parts order).length) (entries : List PathTableEntry) :
    readPathTable order (((ofList (e :: entries)).encode order).take cut) =
      .error .truncatedRecord := by
  rw [encode_cons, PathTableEntry.encode_eq, List.append_assoc,
    List.take_append_of_le_length (Nat.le_of_lt hcut),
    PathTableEntry.readPathTable_take_parts he hpos hcut]

/-- A cut right behind the parts of the first entry leaves that entry, as its padding is not needed. -/
theorem readPathTable_take_before_padding (he : e.IsNamed) (hpadded : e.IsPadded)
    (hcut : cut + 1 = e.size) (entries : List PathTableEntry) :
    readPathTable order (((ofList (e :: entries)).encode order).take cut) = .ok [e] := by
  have hlength : (e.parts order).length = cut := by
    rw [PathTableEntry.length_parts]
    rcases e.size_cases with ⟨-, hpad⟩ | ⟨hnot, -⟩
    · omega
    · exact absurd hpadded hnot
  have hdrop : (e.parts order).drop e.size = [] := List.drop_of_length_le (by omega)
  have hread := PathTableEntry.readPathTable_parts_append order he []
  rw [List.append_nil, hdrop] at hread
  rw [encode_cons, PathTableEntry.encode_eq, List.append_assoc, List.take_left' hlength, hread,
    readPathTable]
  rfl

/-- A cut behind the first entry is a cut of the others, which is the step of the induction. -/
theorem readPathTable_take_behind (he : e.IsNamed) (hcut : e.size ≤ cut)
    (entries : List PathTableEntry) :
    readPathTable order (((ofList (e :: entries)).encode order).take cut) =
      (readPathTable order (((ofList entries).encode order).take (cut - e.size))).map (e :: ·) := by
  have hlength := PathTableEntry.length_encode order e
  rw [encode_cons, List.take_append, hlength, List.take_of_length_le (by omega),
    PathTableEntry.readPathTable_encode_append order he]

/-- The entries before a cut are read if the cut is behind one of them. The induction is on the entries.
-/
theorem readPathTable_take_of_endsAt (hnamed : ∀ e ∈ entries, e.IsNamed)
    (hcount : count ≤ entries.length) (hends : EndsAt entries count cut) :
    readPathTable order (((ofList entries).encode order).take cut) = .ok (entries.take count) := by
  induction entries generalizing count cut with
  | nil =>
    rw [encode_nil, List.take_nil, List.take_nil, readPathTable]
  | cons e entries ih =>
    obtain ⟨he, hentries⟩ := List.forall_mem_cons.mp hnamed
    cases count with
    | zero =>
      rw [endsAt_zero.mp hends, List.take_zero, readPathTable, List.take_zero]
    | succ count =>
      have hcount : count ≤ entries.length := Nat.le_of_succ_le_succ hcount
      rcases (endsAt_succ hcount).mp hends with ⟨rfl, hpadded, hcut⟩ | ⟨hle, hlater⟩
      · exact readPathTable_take_before_padding he hpadded hcut entries
      · rw [readPathTable_take_behind he hle, ih hentries hcount hlater]
        rfl

/-- Nothing is read if the cut is within an entry: such a table is refused as a whole. -/
theorem readPathTable_take_of_not_endsAt (hnamed : ∀ e ∈ entries, e.IsNamed)
    (hcut : cut ≤ (ofList entries).size)
    (hends : ∀ count ≤ entries.length, ¬ EndsAt entries count cut) :
    readPathTable order (((ofList entries).encode order).take cut) = .error .truncatedRecord := by
  induction entries generalizing cut with
  | nil =>
    rw [size_nil] at hcut
    exact absurd (endsAt_zero.mpr (Nat.le_zero.mp hcut)) (hends 0 (Nat.le_refl 0))
  | cons e entries ih =>
    obtain ⟨he, hentries⟩ := List.forall_mem_cons.mp hnamed
    rw [size_cons] at hcut
    have hpos : 0 < cut := Nat.pos_of_ne_zero (mt endsAt_zero.mpr (hends 0 (Nat.zero_le _)))
    have hlater (count : Nat) (hcount : count ≤ entries.length) :
        ¬ ((count = 0 ∧ e.IsPadded ∧ cut + 1 = e.size) ∨
          (e.size ≤ cut ∧ EndsAt entries count (cut - e.size))) :=
      mt (endsAt_succ hcount).mpr (hends (count + 1) (Nat.succ_le_succ hcount))
    by_cases hle : e.size ≤ cut
    · have hcut' : cut - e.size ≤ (ofList entries).size := by omega
      rw [readPathTable_take_behind he hle,
        ih hentries hcut' fun count hcount h => hlater count hcount (.inr ⟨hle, h⟩)]
      rfl
    · apply readPathTable_take_within he hpos
      have hfirst := hlater 0 (Nat.zero_le _)
      rw [PathTableEntry.length_parts]
      rcases e.size_cases with ⟨hpadded, hpad⟩ | ⟨-, hpad⟩
      · have hne : ¬ cut + 1 = e.size := fun h => hfirst (.inl ⟨rfl, hpadded, h⟩)
        omega
      · omega

/-- **Path tables are read as they are stored, and not otherwise.** What is read has names that can be
told, and is written again as the bytes it was read from, up to padding, of which only the last byte
can be missing; behind it the bytes end or go on with a zero, and it is read from its own bytes too. A
table that was written and cut off is read up to the cut if this lies between two entries, the padding
of the first of them counted or not, and is refused as truncated wherever else it is cut. -/
theorem readPathTable_stored (order : ByteOrder) :
    (∀ bytes entries, readPathTable order bytes = .ok entries →
      let encoded := (ofList entries).encode order
      (∀ e ∈ entries, 1 ≤ e.name.length ∧ e.name.length ≤ 255) ∧
      (∀ offset < encoded.length, ¬ IsPaddingAt entries offset →
        bytes[offset]? = encoded[offset]?) ∧
      (bytes.length < encoded.length →
        IsPaddingAt entries bytes.length ∧ bytes.length + 1 = encoded.length) ∧
      (∀ b ∈ (bytes.drop encoded.length).head?, b = 0) ∧
      readPathTable order encoded = .ok entries) ∧
    ∀ (entries : List PathTableEntry) (cut : Nat),
      (∀ e ∈ entries, 1 ≤ e.name.length ∧ e.name.length ≤ 255) → cut ≤ (ofList entries).size →
        let left := ((ofList entries).encode order).take cut
        (∀ count ≤ entries.length, EndsAt entries count cut →
          readPathTable order left = .ok (entries.take count)) ∧
        ((∀ count ≤ entries.length, ¬ EndsAt entries count cut) →
          readPathTable order left = .error .truncatedRecord) := by
  constructor
  · intro bytes entries hread encoded
    have hstored : Stored order bytes entries := readPathTable_eq_ok_iff.mp hread
    have hnamed := isNamed_of_stored hstored
    refine ⟨fun e he => ?_, fun offset => getElem?_of_stored hstored,
      missing_of_stored hstored, zero_behind_stored hstored, readPathTable_toList order hnamed⟩
    exact ⟨List.length_pos_iff.mpr (hnamed e he).1, (hnamed e he).2⟩
  · intro entries cut hlengths hcut left
    have hnamed : ∀ e ∈ entries, e.IsNamed := fun e he =>
      ⟨List.ne_nil_of_length_pos (hlengths e he).1, (hlengths e he).2⟩
    exact ⟨fun count => readPathTable_take_of_endsAt hnamed,
      readPathTable_take_of_not_endsAt hnamed hcut⟩

/-- Two entries, of which the first is padded with a byte that is not zero. The table is cut off
before that byte, and within the second entry. -/
theorem readPathTable_stored_oddName :
    let entries : List PathTableEntry := [⟨[0x42], 0, 18, 1⟩, ⟨[0x41, 0x42], 3, 70000, 1⟩]
    let encoded := (ofList entries).encode .little
    let bytes := encoded.set 9 0xFF ++ [0, 7]
    readPathTable .little bytes = .ok entries ∧ bytes[18]? = encoded[18]? ∧
      readPathTable .little encoded = .ok entries ∧
      readPathTable .little (encoded.take 9) = .ok (entries.take 1) ∧
      readPathTable .little (encoded.take 19) = .error .truncatedRecord := by
  intro entries encoded bytes
  have hread : readPathTable .little bytes = .ok entries := eq_ok_of_toOption (by decide +kernel)
  obtain ⟨hstored, hcut⟩ := readPathTable_stored .little
  obtain ⟨hnamed, hagree, -, -, hagain⟩ := hstored bytes entries hread
  have hbefore := (hcut entries 9 hnamed (by decide)).1
  have hwithin := (hcut entries 19 hnamed (by decide)).2
  exact ⟨hread, hagree 18 (by decide) (by decide), hagain, hbefore 1 (by decide) (by decide),
    hwithin (by decide)⟩

end PathTable

end Ecma119
