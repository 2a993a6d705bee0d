import Ecma119.Proofs.Bytes
import Ecma119.Proofs.Decoder
import Ecma119.Proofs.Run

/-!
# Halves of numbers

A number that is recorded both ways has two halves. The strict policy refuses it where they differ,
the lenient one takes the first half and does not look at the last. `Reconciles` says of a parser
that this is all the difference there is, for the numbers at certain offsets. It is kept when
decoders are strung together (`Reconciles.bind`), as long as each of them takes a fixed number of
bytes (`Decoder.Takes`).
-/

namespace Ecma119

/-! ## Numbers in a record -/

/-- A number that is recorded both ways: the offset of its first half and the length of each. -/
structure DualField where
  offset : Nat
  width : Nat
deriving DecidableEq

namespace DualField

/-- Both halves hold the same value, each read in its own order of bytes. -/
def Agrees (f : DualField) (data : Bytes) : Prop :=
  ByteOrder.little.value (data.slice f.offset f.width) =
    ByteOrder.big.value (data.slice (f.offset + f.width) f.width)

/-- The byte belongs to the last half. -/
def InLastHalf (f : DualField) (index : Nat) : Prop :=
  f.offset + f.width ≤ index ∧ index < f.offset + 2 * f.width

/-- The number lies in the first `n` bytes. -/
def EndsBy (n : Nat) (f : DualField) : Prop := f.offset + 2 * f.width ≤ n

instance (n : Nat) (f : DualField) : Decidable (f.EndsBy n) := Nat.decLe _ _

def shift (n : Nat) (f : DualField) : DualField := ⟨n + f.offset, f.width⟩

variable {f : DualField} {n : Nat} {data : Bytes}

/-- A field that is moved has halves that agree where the field has them behind as many bytes. -/
theorem agrees_shift : (f.shift n).Agrees data ↔ f.Agrees (data.drop n) := by
  have hslice (offset : Nat) :
      data.slice (n + offset) f.width = Bytes.slice (data.drop n) offset f.width := by
    rw [Bytes.slice, Bytes.slice, List.drop_drop]
  simp only [Agrees, shift, Nat.add_assoc, hslice]

/-- Whether the halves of a field agree does not depend on what is behind the field. -/
theorem agrees_take (h : f.EndsBy n) : f.Agrees (data.take n) ↔ f.Agrees data := by
  unfold EndsBy at h
  rw [Agrees, Agrees, Bytes.slice_take (by omega), Bytes.slice_take (by omega)]

end DualField

/-- Two strings of bytes differ in the last halves of these numbers at most. -/
structure AlikeBut (fields : List DualField) (data data' : Bytes) : Prop where
  length_eq : data'.length = data.length
  getElem?_eq : ∀ index, (∀ f ∈ fields, ¬ f.InLastHalf index) → data'[index]? = data[index]?

namespace AlikeBut

variable {fields later : List DualField} {data data' : Bytes} {n : Nat}

/-- Without numbers there is nothing in which they can differ, so that alike bytes are equal ones. -/
theorem eq (h : AlikeBut [] data data') : data' = data :=
  List.ext_getElem? fun index => h.getElem?_eq index fun _ hf => (nomatch hf)

/-- Bytes that are alike but for the second halves stay so when they are cut off at one place. -/
theorem take (h : AlikeBut fields data data') (n : Nat) :
    AlikeBut fields (data.take n) (data'.take n) where
  length_eq := by rw [List.length_take, List.length_take, h.length_eq]
  getElem?_eq index hindex := by
    rw [List.getElem?_take, List.getElem?_take, h.getElem?_eq index hindex]

/-- Of the first `n` bytes, only those of numbers among them matter: alike bytes have alike beginnings.
-/
theorem front (h : AlikeBut (fields ++ later.map (DualField.shift n)) data data') :
    AlikeBut fields (data.take n) (data'.take n) where
  length_eq := by rw [List.length_take, List.length_take, h.length_eq]
  getElem?_eq index hindex := by
    rw [List.getElem?_take, List.getElem?_take]
    split
    · next hlt =>
      apply h.getElem?_eq
      intro f hf
      rcases List.mem_append.mp hf with hf | hf
      · exact hindex f hf
      · obtain ⟨g, -, rfl⟩ := List.mem_map.mp hf
        unfold DualField.InLastHalf DualField.shift
        dsimp only
        omega
    · rfl

/-- Of the bytes behind the first `n`, only those of later numbers matter, moved to the front. -/
theorem back (h : AlikeBut (fields ++ later.map (DualField.shift n)) data data')
    (hends : ∀ f ∈ fields, f.EndsBy n) : AlikeBut later (data.drop n) (data'.drop n) where
  length_eq := by rw [List.length_drop, List.length_drop, h.length_eq]
  getElem?_eq index hindex := by
    rw [List.getElem?_drop, List.getElem?_drop]
    apply h.getElem?_eq
    intro f hf
    rcases List.mem_append.mp hf with hf | hf
    · have hend := hends f hf
      unfold DualField.EndsBy at hend
      unfold DualField.InLastHalf
      omega
    · obtain ⟨g, hg, rfl⟩ := List.mem_map.mp hf
      have hother := hindex g hg
      unfold DualField.InLastHalf DualField.shift at *
      dsimp only
      omega

end AlikeBut

/-! ## Decoders that take a fixed number of bytes -/

namespace Decoder

variable {α β : Type} {n m : Nat}

/-- The decoder takes `n` bytes off the front and looks at no others. -/
structure Takes (n : Nat) (d : Decoder α) : Prop where
  rest_eq : ∀ {input rest a}, d input = .ok (a, rest) → rest = input.drop n
  decode_eq : ∀ {input input' : Bytes}, input'.take n = input.take n →
    d.decode input' = d.decode input

/-- What comes behind a decoder that takes `n` bytes is decoded from the bytes behind these. -/
theorem Takes.decode_bind {part : Decoder α} {next : α → Decoder β} (h : Takes n part)
    (input : Bytes) :
    (part >>= next).decode input = part.decode input >>= fun a => (next a).decode (input.drop n) := by
  have hbind : (part >>= next).decode input =
      (part input >>= fun p => next p.1 p.2).map Prod.fst := rfl
  have hpart : part.decode input = (part input).map Prod.fst := rfl
  rw [hbind, hpart]
  cases hrun : part input with
  | error cause => rfl
  | ok p =>
    obtain ⟨a, rest⟩ := p
    obtain rfl := h.rest_eq hrun
    rfl

namespace Takes

theorem pure (a : α) : Takes 0 (pure a : Decoder α) where
  rest_eq h := by
    cases h
    rfl
  decode_eq _ := rfl

theorem throw (cause : FormatError) : Takes 0 (throw cause : Decoder α) where
  rest_eq h := nomatch h
  decode_eq _ := rfl

theorem liftM (result : Except FormatError α) : Takes 0 (liftM result : Decoder α) := by
  cases result with
  | ok a => exact .pure a
  | error cause => exact .throw cause

/-- Decoders in a row read as many bytes as both of them, if the second reads as many on every value. -/
theorem bind {part : Decoder α} {next : α → Decoder β} (hpart : Takes n part)
    (hnext : ∀ a, Takes m (next a)) : Takes (n + m) (part >>= next) where
  rest_eq h := by
    obtain ⟨a, between, hrun, hnextRun⟩ := bind_eq_ok h
    rw [(hnext a).rest_eq hnextRun, hpart.rest_eq hrun, List.drop_drop]
  decode_eq {input input'} h := by
    have hfront : input'.take n = input.take n := by
      have hcut := congrArg (List.take n) h
      rwa [List.take_take, List.take_take, Nat.min_eq_left (Nat.le_add_right n m)] at hcut
    have hback : (input'.drop n).take m = (input.drop n).take m := by
      rw [List.take_drop, List.take_drop, h]
    rw [hpart.decode_bind, hpart.decode_bind, hpart.decode_eq hfront]
    exact congrArg (part.decode input >>= ·) (funext fun a => (hnext a).decode_eq hback)

theorem byte : Takes 1 byte where
  rest_eq {input rest b} h := by
    rw [byte_eq_ok.mp h, List.drop_one, List.tail_cons]
  decode_eq {input input'} h := by
    cases input with
    | nil =>
      obtain rfl : input' = [] := by simpa using h
      rfl
    | cons b tail =>
      obtain ⟨tail', rfl⟩ : ∃ tail', input' = b :: tail' := by
        cases input' with
        | nil => simp at h
        | cons b' tail' => exact ⟨tail', by simpa using h⟩
      rfl

theorem field (n : Nat) : Takes n (field n) where
  rest_eq h := (field_eq_ok.mp h).2.2
  decode_eq {input input'} h := by
    have hdecode (data : Bytes) : (Decoder.field n).decode data =
        if hlength : (data.take n).length = n then
          .ok ⟨(data.take n).toArray, by simpa using hlength⟩ else .error .truncatedRecord := by
      show (Decoder.field n data).map Prod.fst = _
      rw [Decoder.field]
      split <;> rfl
    simp only [hdecode, h]

theorem bytes (n : Nat) : Takes n (bytes n) := (field n).bind fun _ => .pure _

theorem skip (n : Nat) : Takes n (skip n) where
  rest_eq h := by
    cases h
    rfl
  decode_eq _ := rfl

theorem u16 (order : ByteOrder) : Takes 2 (u16 order) := (field 2).bind fun _ => .pure _

theorem u32 (order : ByteOrder) : Takes 4 (u32 order) := (field 4).bind fun _ => .pure _

theorem require (condition : Bool) (cause : FormatError) : Takes 0 (require condition cause) := by
  cases condition with
  | true => exact .pure ()
  | false => exact .throw cause

/-- A number of two bytes in both orders takes four bytes under either policy. -/
theorem dual16 (policy : EndianPolicy) : Takes 4 (dual16 policy) :=
  (u16 .little).bind fun _ => (u16 .big).bind fun _ => (liftM _).bind fun _ => .pure _

/-- A number of four bytes in both orders takes eight bytes under either policy. -/
theorem dual32 (policy : EndianPolicy) : Takes 8 (dual32 policy) :=
  (u32 .little).bind fun _ => (u32 .big).bind fun _ => liftM _

end Takes

/-- What is made of the bytes of a field: it is there if the bytes are, and depends on no others. -/
theorem decode_field_bind (f : Bytes → α) (data : Bytes) :
    (do return f (← field n).toList : Decoder α).decode data =
      if data.length < n then .error .truncatedRecord else .ok (f (data.take n)) := by
  rw [(Takes.field n).decode_bind]
  have hfield : (field n).decode data = (field n data).map Prod.fst := rfl
  rw [hfield, field]
  split
  · next hlength =>
    rw [if_neg (by rw [List.length_take] at hlength; omega)]
    rfl
  · next hlength =>
    rw [if_pos (by rw [List.length_take] at hlength; omega)]
    rfl

/-- The first `n` bytes are decoded, unless there are fewer; what is behind them does not matter. -/
theorem decode_bytes (n : Nat) (data : Bytes) :
    (bytes n).decode data =
      if data.length < n then .error .truncatedRecord else .ok (data.take n) :=
  decode_field_bind id data

theorem decode_liftM (result : Except FormatError α) (data : Bytes) :
    (liftM result : Decoder α).decode data = result := by
  cases result <;> rfl

end Decoder

/-! ## Strict and lenient parsing -/

/-- Of a parser that takes a policy: strictly it gives what it gives otherwise, but only where the
halves of these numbers agree; and otherwise it does not look at their last halves. -/
structure Reconciles {α : Type} (fields : List DualField)
    (parse : EndianPolicy → Bytes → Except FormatError α) : Prop where
  strict_iff : ∀ {data a}, parse .strict data = .ok a ↔
    parse .lenient data = .ok a ∧ ∀ f ∈ fields, f.Agrees data
  lenient_eq : ∀ {data data'}, AlikeBut fields data data' →
    parse .lenient data' = parse .lenient data

namespace Reconciles

variable {α β : Type} {fields later : List DualField} {n : Nat}
variable {parse : EndianPolicy → Bytes → Except FormatError α}

theorem of_eq {fields' : List DualField} (h : Reconciles fields parse)
    (heq : fields = fields') : Reconciles fields' parse := heq ▸ h

/-- A parser that does not take a policy has no numbers to reconcile, and reads alike bytes alike. -/
theorem const (parse : Bytes → Except FormatError α) : Reconciles [] fun _ => parse where
  strict_iff := ⟨fun h => ⟨h, fun _ hf => (nomatch hf)⟩, And.left⟩
  lenient_eq h := by rw [h.eq]

/-- Where nothing is parsed there is nothing to reconcile: both policies fail alike, whatever the fields
hold. -/
theorem throw (fields : List DualField) (cause : FormatError) :
    Reconciles fields fun _ => (throw cause : Decoder α).decode where
  strict_iff := ⟨fun h => (nomatch h), fun h => (nomatch h.1)⟩
  lenient_eq _ := rfl

/-- What has been read strictly is read leniently with the same value, as its halves are known to agree.
-/
theorem ok_of_strict (h : Reconciles fields parse) {data : Bytes} {a : α}
    (hstrict : parse .strict data = .ok a) : parse .lenient data = .ok a :=
  (h.strict_iff.mp hstrict).1

/-- Parsers strung together. The numbers of the second are found behind the bytes of the first. -/
theorem bind {part : EndianPolicy → Decoder α} {next : EndianPolicy → α → Decoder β}
    (htakes : ∀ policy, (part policy).Takes n) (hends : ∀ f ∈ fields, f.EndsBy n)
    (hpart : Reconciles fields fun policy => (part policy).decode)
    (hnext : ∀ a, Reconciles later fun policy => (next policy a).decode) :
    Reconciles (fields ++ later.map (DualField.shift n)) fun policy =>
      (part policy >>= next policy).decode where
  strict_iff {data b} := by
    have hagree : (∀ f ∈ fields ++ later.map (DualField.shift n), f.Agrees data) ↔
        (∀ f ∈ fields, f.Agrees data) ∧ ∀ f ∈ later, f.Agrees (data.drop n) := by
      simp only [List.forall_mem_append, List.forall_mem_map, DualField.agrees_shift]
    rw [(htakes .strict).decode_bind, (htakes .lenient).decode_bind, except_bind_eq_ok_iff,
      except_bind_eq_ok_iff, hagree]
    constructor
    · rintro ⟨a, ha, hb⟩
      obtain ⟨ha, hfields⟩ := hpart.strict_iff.mp ha
      obtain ⟨hb, hlater⟩ := (hnext a).strict_iff.mp hb
      exact ⟨⟨a, ha, hb⟩, hfields, hlater⟩
    · rintro ⟨⟨a, ha, hb⟩, hfields, hlater⟩
      exact ⟨a, hpart.strict_iff.mpr ⟨ha, hfields⟩, (hnext a).strict_iff.mpr ⟨hb, hlater⟩⟩
  lenient_eq {data data'} h := by
    -- The first decoder looks at the first bytes only, where its own numbers are all that matters.
    have hfirst (bytes : Bytes) :
        (part .lenient).decode bytes = (part .lenient).decode (bytes.take n) :=
      (htakes .lenient).decode_eq (by rw [List.take_take, Nat.min_self])
    have hsame : (part .lenient).decode data' = (part .lenient).decode data := by
      rw [hfirst data', hfirst data]
      exact hpart.lenient_eq h.front
    rw [(htakes .lenient).decode_bind, (htakes .lenient).decode_bind, hsame]
    exact congrArg ((part .lenient).decode data >>= ·)
      (funext fun a => (hnext a).lenient_eq (h.back hends))

/-- The first decoder may also do without a policy: the fields of the second lie behind the bytes it
takes. -/
theorem bind_const {part : Decoder α} {next : EndianPolicy → α → Decoder β} (htakes : part.Takes n)
    (hnext : ∀ a, Reconciles later fun policy => (next policy a).decode) :
    Reconciles (later.map (DualField.shift n)) fun policy => (part >>= next policy).decode :=
  bind (fun _ => htakes) (List.forall_mem_nil _) (const part.decode) hnext

/-- A parser that is given as many bytes from the front as the bytes say, if they say it. -/
theorem cut {parse' : EndianPolicy → Bytes → Except FormatError α} (h : Reconciles fields parse)
    (cause : FormatError) (size : Bytes → Option Nat)
    (hsize : ∀ {data data'}, AlikeBut fields data data' → size data' = size data)
    (hends : ∀ data, ∀ n ∈ size data, ∀ f ∈ fields, f.EndsBy n)
    (hparse : ∀ policy data, parse' policy data =
      (size data).elim (.error cause) fun n => parse policy (data.take n)) :
    Reconciles fields parse' where
  strict_iff {data a} := by
    rw [hparse, hparse]
    cases hn : size data with
    | none => exact ⟨fun h => (nomatch h), fun h => (nomatch h.1)⟩
    | some n =>
      have hagree : (∀ f ∈ fields, f.Agrees (data.take n)) ↔ ∀ f ∈ fields, f.Agrees data :=
        forall₂_congr fun f hf => DualField.agrees_take (hends data n hn f hf)
      rw [← hagree]
      exact h.strict_iff
  lenient_eq {data data'} halike := by
    rw [hparse, hparse, hsize halike]
    cases size data with
    | none => rfl
    | some n => exact h.lenient_eq (halike.take n)

/-- A record of `n` bytes, parsed on its own, brings its fields into what is decoded around it, where it
lies. -/
theorem bind_record {next : EndianPolicy → α → Decoder β} (hends : ∀ f ∈ fields, f.EndsBy n)
    (hparse : Reconciles fields parse)
    (hnext : ∀ a, Reconciles later fun policy => (next policy a).decode) :
    Reconciles (fields ++ later.map (DualField.shift n)) fun policy =>
      (do next policy (← parse policy (← Decoder.bytes n)) : Decoder β).decode := by
  have hrecord : Reconciles fields fun policy =>
      (do parse policy (← Decoder.bytes n) : Decoder α).decode := by
    apply hparse.cut .truncatedRecord fun data => if data.length < n then none else some n
    · intro data data' h
      rw [h.length_eq]
    · intro data m hm
      rw [Option.mem_def] at hm
      split at hm
      · cases hm
      · cases hm
        exact hends
    · intro policy data
      rw [(Decoder.Takes.bytes n).decode_bind, Decoder.decode_bytes]
      split
      · rfl
      · exact Decoder.decode_liftM _ _
  have htakes (policy : EndianPolicy) :
      (do parse policy (← Decoder.bytes n) : Decoder α).Takes n :=
    (Decoder.Takes.bytes n).bind fun _ => .liftM _
  have hbind := bind htakes hends hrecord hnext
  simp only [bind_assoc] at hbind
  exact hbind

end Reconciles

/-! ## The numbers themselves -/

/-- So many digits hold no more. -/
theorem littleValue_lt (bytes : Bytes) : littleValue bytes < 256 ^ bytes.length := by
  induction bytes with
  | nil => exact Nat.one_pos
  | cons b rest ih =>
    have hb := b.toNat_lt
    rw [littleValue, List.length_cons, Nat.pow_succ]
    omega

/-- A number is less than what as many bytes can tell. -/
theorem ByteOrder.value_lt (order : ByteOrder) (bytes : Bytes) :
    order.value bytes < 256 ^ bytes.length := by
  cases order with
  | little => exact littleValue_lt bytes
  | big =>
    rw [ByteOrder.value, ← List.length_reverse]
    exact littleValue_lt bytes.reverse

namespace Decoder

/-- The first two bytes are decoded, in the order that is asked for, unless there are fewer. -/
theorem decode_u16 (order : ByteOrder) (data : Bytes) :
    (u16 order).decode data = if data.length < 2 then .error .truncatedRecord
      else .ok (UInt16.ofNat (order.value (data.take 2))) :=
  decode_field_bind (fun bytes => UInt16.ofNat (order.value bytes)) data

/-- The first four bytes are decoded, in the order that is asked for, unless there are fewer. -/
theorem decode_u32 (order : ByteOrder) (data : Bytes) :
    (u32 order).decode data = if data.length < 4 then .error .truncatedRecord
      else .ok (UInt32.ofNat (order.value (data.take 4))) :=
  decode_field_bind (fun bytes => UInt32.ofNat (order.value bytes)) data

/-- Two halves are read one behind the other, and what is made of them last: both have to be there. -/
theorem decode_halves {α β : Type} {n : Nat} {half : ByteOrder → Decoder α} {value : Nat → α}
    (htakes : ∀ order, (half order).Takes n)
    (hhalf : ∀ order data, (half order).decode data = if data.length < n then .error .truncatedRecord
      else .ok (value (order.value (data.take n))))
    (make : α → α → Except FormatError β) (data : Bytes) :
    (do make (← half .little) (← half .big) : Decoder β).decode data =
      if data.length < 2 * n then .error .truncatedRecord
      else make (value (ByteOrder.little.value (data.slice 0 n)))
        (value (ByteOrder.big.value (data.slice n n))) := by
  rw [(htakes .little).decode_bind, hhalf]
  by_cases hfirst : data.length < n
  · rw [if_pos hfirst, if_pos (by omega)]
    rfl
  · rw [if_neg hfirst]
    show ((half .big >>= fun be => liftM (make _ be)) : Decoder β).decode (data.drop n) = _
    rw [(htakes .big).decode_bind, hhalf, List.length_drop]
    by_cases hlast : data.length - n < n
    · rw [if_pos hlast, if_pos (by omega)]
      rfl
    · rw [if_neg hlast, if_neg (by omega)]
      exact decode_liftM _ _
end Decoder

namespace EndianPolicy

/-- The lenient policy takes the little-endian half, whatever the other is. -/
theorem reconcile_lenient (le be : UInt32) : reconcile .lenient le be = .ok le := by
  unfold reconcile
  split <;> rfl

/-- The strict policy takes the value of both halves, if they have the same. -/
theorem reconcile_strict_eq_ok {le be value : UInt32} :
    reconcile .strict le be = .ok value ↔ le = value ∧ le = be := by
  unfold reconcile
  split
  · next h => simp [h]
  · next h => simp [h]

end EndianPolicy

namespace Reconciles

variable {α : Type} {n : Nat}

/-- A number alone is reconciled as the policy has it: strictly both halves count, leniently the first.
-/
theorem number {parse : EndianPolicy → Bytes → Except FormatError α} (value : Nat → UInt32)
    (give : UInt32 → α) (hvalue : ∀ m < 256 ^ n, (value m).toNat = m)
    (hparse : ∀ policy data, parse policy data =
      if data.length < 2 * n then .error .truncatedRecord
      else (policy.reconcile (value (ByteOrder.little.value (data.slice 0 n)))
        (value (ByteOrder.big.value (data.slice n n)))).map give) :
    Reconciles [⟨0, n⟩] parse where
  strict_iff {data a} := by
    rw [hparse, hparse, EndianPolicy.reconcile_lenient]
    by_cases hlength : data.length < 2 * n
    · simp [hlength]
    · have hagree : (∀ f ∈ [DualField.mk 0 n], f.Agrees data) ↔
          value (ByteOrder.little.value (data.slice 0 n)) =
            value (ByteOrder.big.value (data.slice n n)) := by
        have hbound (order : ByteOrder) {offset : Nat} (hend : offset + n ≤ data.length) :
            order.value (data.slice offset n) < 256 ^ n := by
          have hlt := order.value_lt (data.slice offset n)
          rwa [Bytes.length_slice hend] at hlt
        rw [List.forall_mem_singleton, DualField.Agrees, Nat.zero_add]
        constructor
        · exact congrArg value
        · intro h
          have hnat := congrArg UInt32.toNat h
          rwa [hvalue _ (hbound .little (by omega)), hvalue _ (hbound .big (by omega))] at hnat
      rw [if_neg hlength, if_neg hlength, hagree]
      generalize value (ByteOrder.little.value (data.slice 0 n)) = le
      generalize value (ByteOrder.big.value (data.slice n n)) = be
      by_cases hsame : le = be
      · rw [EndianPolicy.reconcile_strict_eq_ok.mpr ⟨rfl, hsame⟩]
        exact (and_iff_left hsame).symm
      · rw [EndianPolicy.reconcile, if_neg hsame]
        refine ⟨fun h => ?_, fun h => absurd h.2 hsame⟩
        cases h
  lenient_eq {data data'} h := by
    have hfirst : data'.slice 0 n = data.slice 0 n := by
      apply List.ext_getElem?
      intro index
      rw [Bytes.slice, Bytes.slice, List.drop_zero, List.drop_zero, List.getElem?_take,
        List.getElem?_take]
      split
      · next hlt =>
        apply h.getElem?_eq
        intro f hf
        rw [List.mem_singleton.mp hf]
        exact fun hlast => absurd hlast.1 (by dsimp only; omega)
      · rfl
    rw [hparse, hparse, EndianPolicy.reconcile_lenient, EndianPolicy.reconcile_lenient,
      h.length_eq, hfirst]

/-- A number of four bytes in both orders is reconciled: under the strict policy its halves have to
agree, under the lenient one the first counts. -/
theorem dual32 : Reconciles [⟨0, 4⟩] fun policy => (Decoder.dual32 policy).decode := by
  refine number UInt32.ofNat id ?_ ?_
  · intro m hm
    exact UInt32.toNat_ofNat'.trans (Nat.mod_eq_of_lt hm)
  · intro policy data
    have hhalves := Decoder.decode_halves Decoder.Takes.u32 Decoder.decode_u32 policy.reconcile data
    refine hhalves.trans (if_congr Iff.rfl rfl ?_)
    cases policy.reconcile _ _ <;> rfl

/-- A number of two bytes in both orders is reconciled in the same way. -/
theorem dual16 : Reconciles [⟨0, 2⟩] fun policy => (Decoder.dual16 policy).decode := by
  refine number (fun m => (UInt16.ofNat m).toUInt32) UInt32.toUInt16 ?_ ?_
  · intro m hm
    rw [UInt16.toNat_toUInt32]
    exact UInt16.toNat_ofNat'.trans (Nat.mod_eq_of_lt hm)
  · intro policy data
    have hhalves := Decoder.decode_halves Decoder.Takes.u16 Decoder.decode_u16
      (fun le be => (policy.reconcile le.toUInt32 be.toUInt32).map UInt32.toUInt16) data
    have hdual : Decoder.dual16 policy = (do
        (policy.reconcile (← Decoder.u16 .little).toUInt32 (← Decoder.u16 .big).toUInt32).map
          UInt32.toUInt16) := by
      refine congrArg (Decoder.u16 .little >>= ·) (funext fun le => ?_)
      refine congrArg (Decoder.u16 .big >>= ·) (funext fun be => ?_)
      cases policy.reconcile le.toUInt32 be.toUInt32 <;> rfl
    rw [hdual]
    exact hhalves

end Reconciles

end Ecma119
