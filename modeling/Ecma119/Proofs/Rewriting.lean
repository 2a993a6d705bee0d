import Ecma119.Proofs.Halves

/-!
# Writing again what has been read

A decoder that takes a fixed number of bytes is inverted by an encoder if the value it gives is written
as these very bytes. Numbers that are recorded both ways are written again as they were if they were
read strictly; for the others, `mirrored` says what comes of their last halves. `Inverts.of_bind` goes
through a record part by part, with all that has been written so far at hand.
-/

namespace Ecma119

/-! ## Decoders and the encoders that invert them -/

namespace Decoder

variable {α β : Type} {n : Nat}

/-- The decoder takes `n` bytes, and what it gives is written as these bytes. -/
structure Inverts (n : Nat) (write : α → Bytes) (d : Decoder α) : Prop extends Takes n d where
  write_eq : ∀ {input rest a}, d input = .ok (a, rest) → write a = input.take n

namespace Inverts

/-- What has been read is written in front of what was left: no byte that was taken is lost. -/
theorem input_eq {write : α → Bytes} {d : Decoder α} {input rest : Bytes} {a : α}
    (h : Inverts n write d) (hrun : d input = .ok (a, rest)) : input = write a ++ rest := by
  rw [h.write_eq hrun, h.rest_eq hrun, List.take_append_drop]

/-- The part that is read next is written behind what has been written. The bytes that are to come out
are `target`; up to `offset` they are at hand. -/
theorem of_bind {write : α → Bytes} {part : Decoder α} {next : α → Decoder β}
    {front target data rest : Bytes} {offset : Nat} {b : β} (h : Inverts n write part)
    (hfront : front = target.take offset) (hpart : target.slice offset n = data.slice offset n)
    (hrun : (part >>= next) (data.drop offset) = .ok (b, rest)) :
    ∃ a, front ++ write a = target.take (offset + n) ∧
      next a (data.drop (offset + n)) = .ok (b, rest) := by
  obtain ⟨a, between, ha, hnext⟩ := bind_eq_ok hrun
  refine ⟨a, ?_, ?_⟩
  · have hwrite : write a = data.slice offset n := h.write_eq ha
    rw [hfront, hwrite, ← hpart, List.take_add]
    rfl
  · rwa [h.rest_eq ha, List.drop_drop] at hnext

theorem byte : Inverts 1 (fun b => [b]) byte where
  toTakes := .byte
  write_eq h := by
    rw [byte_eq_ok.mp h]
    rfl

theorem field (n : Nat) : Inverts n Vector.toList (field n) where
  toTakes := .field n
  write_eq h := (field_eq_ok.mp h).2.1

/-- A number is written as it was if none is lost in between, which holds for numbers of the right width.
-/
theorem number (order : ByteOrder) {give : Nat → α} {toNat : α → Nat}
    (h : ∀ m < 256 ^ n, toNat (give m) = m) :
    Inverts n (fun a => order.bytes n (toNat a))
      (do return give (order.value (← Decoder.field n).toList)) where
  toTakes := (Takes.field n).bind fun _ => .pure _
  write_eq {input rest a} hrun := by
    obtain ⟨f, between, hf, hdone⟩ := bind_eq_ok hrun
    cases hdone
    have hlt := order.value_lt f.toList
    have hbytes := order.bytes_value f.toList
    rw [Vector.length_toList] at hlt hbytes
    show order.bytes n (toNat (give _)) = _
    rw [h _ hlt, hbytes, (field_eq_ok.mp hf).2.1]

theorem u16 (order : ByteOrder) : Inverts 2 order.bytes16 (u16 order) :=
  number order fun _ h => UInt16.toNat_ofNat'.trans (Nat.mod_eq_of_lt h)

theorem u32 (order : ByteOrder) : Inverts 4 order.bytes32 (u32 order) :=
  number order fun _ h => UInt32.toNat_ofNat'.trans (Nat.mod_eq_of_lt h)

/-- A number of two bytes in both orders is had back from its value if its halves agree, as the strict
policy asks. -/
theorem dual16 : Inverts 4 dualBytes16 (dual16 .strict) where
  toTakes := .dual16 .strict
  write_eq {input rest value} h := by
    obtain ⟨le, between, hle, hrun⟩ := bind_eq_ok h
    obtain ⟨be, behind, hbe, hrun⟩ := bind_eq_ok hrun
    obtain ⟨common, _, hcommon, hdone⟩ := bind_eq_ok hrun
    cases hdone
    obtain ⟨rfl, hsame⟩ := EndianPolicy.reconcile_strict_eq_ok.mp (liftM_eq_ok.mp hcommon).1
    obtain rfl : le = be := by
      rw [← UInt16.toUInt16_toUInt32 le, hsame, UInt16.toUInt16_toUInt32]
    rw [(u16 .little).rest_eq hle] at hbe
    rw [UInt16.toUInt16_toUInt32, dualBytes16, (u16 .little).write_eq hle, (u16 .big).write_eq hbe,
      ← List.take_add]

/-- A number of four bytes in both orders is had back from its value if its halves agree, as the strict
policy asks. -/
theorem dual32 : Inverts 8 dualBytes32 (dual32 .strict) where
  toTakes := .dual32 .strict
  write_eq {input rest value} h := by
    obtain ⟨le, between, hle, hrun⟩ := bind_eq_ok h
    obtain ⟨be, behind, hbe, hcommon⟩ := bind_eq_ok hrun
    obtain ⟨rfl, hsame⟩ := EndianPolicy.reconcile_strict_eq_ok.mp (liftM_eq_ok.mp hcommon).1
    subst hsame
    rw [(u32 .little).rest_eq hle] at hbe
    rw [dualBytes32, (u32 .little).write_eq hle, (u32 .big).write_eq hbe, ← List.take_add]

end Inverts

/-- Bytes are written as they were read, and there are so many of them; what comes behind is written
next. -/
theorem of_bytes_bind {next : Bytes → Decoder β} {front target data rest : Bytes} {offset : Nat}
    {b : β} (hfront : front = target.take offset)
    (hpart : target.slice offset n = data.slice offset n)
    (hrun : (bytes n >>= next) (data.drop offset) = .ok (b, rest)) :
    ∃ part, part.length = n ∧ front ++ part = target.take (offset + n) ∧
      next part (data.drop (offset + n)) = .ok (b, rest) := by
  obtain ⟨part, between, hbytes, hnext⟩ := bind_eq_ok hrun
  obtain ⟨hlength, rfl, rfl⟩ := bytes_eq_ok.mp hbytes
  rw [List.drop_drop] at hnext
  refine ⟨_, List.length_take_of_le hlength, ?_, hnext⟩
  rw [hfront, List.take_add]
  exact congrArg _ hpart.symm

/-- Reserved bytes are written as zeros, whatever they were: this is where a rewritten sector differs
from it. -/
theorem of_skip_bind {next : Unit → Decoder β} {front target data rest : Bytes} {offset : Nat}
    {b : β} (hfront : front = target.take offset) (hpart : target.slice offset n = Bytes.zeros n)
    (hrun : (skip n >>= next) (data.drop offset) = .ok (b, rest)) :
    front ++ Bytes.zeros n = target.take (offset + n) ∧
      next () (data.drop (offset + n)) = .ok (b, rest) := by
  obtain ⟨⟨⟩, between, hskip, hnext⟩ := bind_eq_ok hrun
  refine ⟨?_, ?_⟩
  · rw [hfront, ← hpart, List.take_add]
    rfl
  · rwa [(Takes.skip n).rest_eq hskip, List.drop_drop] at hnext

end Decoder

/-! ## Numbers with the first half written over the last -/

namespace DualField

/-- The bytes with the value of the number's first half in its last half too. -/
def mirror (f : DualField) (data : Bytes) : Bytes :=
  data.put (f.offset + f.width)
    (ByteOrder.big.bytes f.width (ByteOrder.little.value (data.slice f.offset f.width)))

/-- One of the numbers ends before the other starts. -/
def Apart (f g : DualField) : Prop :=
  f.offset + 2 * f.width ≤ g.offset ∨ g.offset + 2 * g.width ≤ f.offset

instance (f g : DualField) : Decidable (f.Apart g) := inferInstanceAs (Decidable (_ ∨ _))

variable {f g : DualField} {data : Bytes}

theorem length_mirror (h : f.EndsBy data.length) : (f.mirror data).length = data.length := by
  unfold EndsBy at h
  apply Bytes.length_put
  rw [ByteOrder.length_bytes]
  omega

/-- Mirroring a field changes no byte outside its last half. -/
theorem getElem?_mirror (h : f.EndsBy data.length) {index : Nat} (hindex : ¬ f.InLastHalf index) :
    (f.mirror data)[index]? = data[index]? := by
  unfold EndsBy at h
  unfold InLastHalf at hindex
  apply Bytes.getElem?_put_of_apart <;> rw [ByteOrder.length_bytes] <;> omega

/-- A slice that does not meet the last half of a field is the same when the field is mirrored. -/
theorem slice_mirror (h : f.EndsBy data.length) {start len : Nat}
    (hapart : start + len ≤ f.offset + f.width ∨ f.offset + 2 * f.width ≤ start) :
    (f.mirror data).slice start len = data.slice start len := by
  unfold EndsBy at h
  apply Bytes.slice_put_of_apart <;> rw [ByteOrder.length_bytes] <;> omega

/-- The halves of the number agree afterwards, as the second one is made from the first. -/
theorem agrees_mirror (h : f.EndsBy data.length) : f.Agrees (f.mirror data) := by
  have hfirst : (f.mirror data).slice f.offset f.width = data.slice f.offset f.width :=
    slice_mirror h (.inl (Nat.le_refl _))
  unfold EndsBy at h
  have hlast : (f.mirror data).slice (f.offset + f.width) f.width =
      ByteOrder.big.bytes f.width (ByteOrder.little.value (data.slice f.offset f.width)) :=
    Bytes.slice_put_self (by omega) (ByteOrder.length_bytes ..)
  have hlt := ByteOrder.little.value_lt (data.slice f.offset f.width)
  rw [Bytes.length_slice (by omega)] at hlt
  rw [Agrees, hfirst, hlast, ByteOrder.value_bytes, Nat.mod_eq_of_lt hlt]

/-- Numbers elsewhere are as they were: mirroring one of them neither repairs nor breaks the others. -/
theorem agrees_mirror_of_apart (h : f.EndsBy data.length) (hapart : f.Apart g) :
    g.Agrees (f.mirror data) ↔ g.Agrees data := by
  unfold Apart at hapart
  rw [Agrees, Agrees, slice_mirror h (by omega), slice_mirror h (by omega)]

end DualField

/-- The bytes with the values of the first halves of these numbers in their last halves too. -/
def mirrored (fields : List DualField) (data : Bytes) : Bytes := fields.foldr DualField.mirror data

section Mirrored

variable {fields : List DualField} {data : Bytes}

/-- Mirroring fields that lie in the data keeps its length. -/
theorem length_mirrored (hends : ∀ f ∈ fields, f.EndsBy data.length) :
    (mirrored fields data).length = data.length := by
  induction fields with
  | nil => rfl
  | cons f fields ih =>
    obtain ⟨hf, hfields⟩ := List.forall_mem_cons.mp hends
    have hlength := ih hfields
    rw [← hlength] at hf
    exact (DualField.length_mirror hf).trans hlength

/-- Data with mirrored fields is like the data before, but for the last halves of the fields. -/
theorem alikeBut_mirrored (hends : ∀ f ∈ fields, f.EndsBy data.length) :
    AlikeBut fields data (mirrored fields data) where
  length_eq := length_mirrored hends
  getElem?_eq index hindex := by
    induction fields with
    | nil => rfl
    | cons f fields ih =>
      obtain ⟨hf, hfields⟩ := List.forall_mem_cons.mp hends
      rw [← length_mirrored hfields] at hf
      obtain ⟨hout, hindex⟩ := List.forall_mem_cons.mp hindex
      exact (DualField.getElem?_mirror hf hout).trans (ih hfields hindex)

/-- All the halves agree afterwards, as the fields lie apart and do not undo each other. -/
theorem agrees_mirrored (hends : ∀ f ∈ fields, f.EndsBy data.length)
    (hapart : fields.Pairwise DualField.Apart) : ∀ f ∈ fields, f.Agrees (mirrored fields data) := by
  induction fields with
  | nil => exact List.forall_mem_nil _
  | cons f fields ih =>
    obtain ⟨hf, hfields⟩ := List.forall_mem_cons.mp hends
    obtain ⟨hfirst, hapart⟩ := List.pairwise_cons.mp hapart
    rw [← length_mirrored hfields] at hf
    rw [List.forall_mem_cons]
    refine ⟨DualField.agrees_mirror hf, fun g hg => ?_⟩
    exact (DualField.agrees_mirror_of_apart hf (hfirst g hg)).mpr (ih hfields hapart g hg)

/-- Lenient parsing is strict parsing of bytes whose halves have been made to agree. -/
theorem Reconciles.strict_mirrored {α : Type} {parse : EndianPolicy → Bytes → Except FormatError α}
    {a : α} (h : Reconciles fields parse) (hends : ∀ f ∈ fields, f.EndsBy data.length)
    (hapart : fields.Pairwise DualField.Apart) :
    parse .strict (mirrored fields data) = .ok a ↔ parse .lenient data = .ok a := by
  rw [h.strict_iff, h.lenient_eq (alikeBut_mirrored hends)]
  exact and_iff_left (agrees_mirrored hends hapart)

end Mirrored

end Ecma119
