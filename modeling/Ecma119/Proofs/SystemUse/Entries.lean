import Ecma119.Proofs.SystemUse.Xa
import Ecma119.Proofs.Text.Utf8
import Ecma119.SystemUse

/-!
# System use areas that are gone through to the end

An area is gone through step by step, from behind an XA record if it has one in front. Entries that
are laid out one after the other come out as they are, up to bytes that are no entry; behind them no
step gives anything any more (`entriesFrom_layout`, `answers_eq`). A name in parts is put together
from the entries that carry them, whatever other entries stand between these (`joinParts_data`).
-/

namespace Ecma119

namespace SystemUseEntry

variable {e : SystemUseEntry} {entries : List SystemUseEntry} {area rest tail : Bytes}

/-! ## Steps -/

/-- A step through an area: the entry at its front and what is behind that, or no entry and the area
as it was. -/
def next (area : Bytes) : Option SystemUseEntry × Bytes :=
  match area with
  | s :: t :: length :: version :: rest =>
    let dataLength := length.toNat - headLength
    if length.toNat < headLength ∨ rest.length < dataLength ∨ (s, t) = terminator then (none, area)
    else (some ⟨(s, t), version, rest.take dataLength⟩, rest.drop dataLength)
  | _ => (none, area)

/-- What so many steps give, one after the other. -/
def answers : (count : Nat) → Bytes → List (Option SystemUseEntry)
  | 0, _ => []
  | count + 1, area => (next area).1 :: answers count (next area).2

/-- A step gives the first of the entries and leaves the others, or there are none and the area
stays. -/
theorem next_cases (area : Bytes) :
    (∃ e rest, next area = (some e, rest) ∧ entriesFrom area = e :: entriesFrom rest) ∨
    (next area = (none, area) ∧ entriesFrom area = []) := by
  have hshort (rest : Bytes) (count : Nat) :
      (rest.take count).length < count ↔ rest.length < count := by
    rw [List.length_take]
    omega
  fun_cases next area with
  | case1 s t length version rest dataLength hend =>
    rw [← hshort] at hend
    exact .inr ⟨rfl, by rw [entriesFrom, if_pos hend]⟩
  | case2 s t length version rest dataLength hread =>
    rw [← hshort] at hread
    exact .inl ⟨_, _, rfl, by rw [entriesFrom, if_neg hread]⟩
  | case3 _ hnone => exact .inr ⟨rfl, by rw [entriesFrom]; exact hnone⟩

/-- An area that starts with an entry has that entry, and then those behind it. -/
theorem entriesFrom_of_next (h : next area = (some e, rest)) :
    entriesFrom area = e :: entriesFrom rest := by
  rcases next_cases area with ⟨_, _, hnext, hentries⟩ | ⟨hnext, -⟩
  · cases hnext.symm.trans h
    exact hentries
  · cases hnext.symm.trans h

/-- Where no entry starts there are no more of them, whatever bytes are left. -/
theorem entriesFrom_of_next_none (h : next area = (none, rest)) : entriesFrom area = [] := by
  rcases next_cases area with ⟨_, _, hnext, -⟩ | ⟨-, hentries⟩
  · cases hnext.symm.trans h
  · exact hentries

/-- The steps give the entries of the area, and then nothing however often it is asked for. -/
theorem answers_eq (count : Nat) (area : Bytes) :
    answers count area = ((entriesFrom area).map some).take count ++
      List.replicate (count - (entriesFrom area).length) none := by
  induction count generalizing area with
  | zero => simp [answers]
  | succ count ih =>
    rw [answers]
    rcases next_cases area with ⟨e, rest, hnext, hentries⟩ | ⟨hnext, hentries⟩
    · rw [hnext, hentries, ih, List.map_cons, List.take_succ_cons, List.length_cons,
        Nat.add_sub_add_right, List.cons_append]
    · rw [hnext, ih, hentries]
      simp [List.replicate_succ]

/-! ## Entries that are laid out -/

def encode (e : SystemUseEntry) : Bytes :=
  [e.signature.1, e.signature.2, UInt8.ofNat (headLength + e.data.length), e.version] ++ e.data

/-- The entry does not end the area, and one byte has room for its length. -/
structure Fits (e : SystemUseEntry) : Prop where
  signature_ne : e.signature ≠ terminator
  length_le : e.data.length ≤ 251

/-- What can stand behind the last entry: too few bytes for a head, a terminator with anything behind
it, or a head whose length is less than its own or more than there is. -/
inductive EndsEntries : Bytes → Prop
  | short {tail : Bytes} (h : tail.length < headLength) : EndsEntries tail
  | terminator (behind : Bytes) :
    EndsEntries (SystemUseEntry.terminator.1 :: SystemUseEntry.terminator.2 :: behind)
  | badLength (s t length version : UInt8) (data : Bytes)
      (h : length.toNat < headLength ∨ headLength + data.length < length.toNat) :
    EndsEntries (s :: t :: length :: version :: data)

/-- An entry is read as it was written, whatever follows it, if its length fits in a byte. -/
theorem next_encode (h : e.Fits) (rest : Bytes) : next (e.encode ++ rest) = (some e, rest) := by
  have hlength : (UInt8.ofNat (headLength + e.data.length)).toNat = headLength + e.data.length := by
    have hfits := h.length_le
    rw [headLength, Utf8.toNat_ofNat_of_lt (by omega)]
  have hdata : headLength + e.data.length - headLength = e.data.length :=
    Nat.add_sub_cancel_left headLength e.data.length
  have hread : ¬ (headLength + e.data.length < headLength ∨
      (e.data ++ rest).length < e.data.length ∨
      (e.signature.1, e.signature.2) = terminator) := by
    rw [List.length_append, not_or, not_or]
    exact ⟨by omega, by omega, h.signature_ne⟩
  simp only [encode, List.cons_append, List.nil_append, next, hlength, hdata]
  rw [if_neg hread, List.take_left, List.drop_left]

/-- Behind the last entry there is none: too few bytes are left for one, a terminator stands there, or a
length that is none. -/
theorem EndsEntries.next_eq (h : EndsEntries tail) : next tail = (none, tail) := by
  cases h with
  | short h =>
    fun_cases next tail with
    | case1 => rfl
    | case2 s t length version rest =>
      simp only [List.length_cons, headLength] at h
      omega
    | case3 => rfl
  | terminator behind =>
    match behind with
    | length :: version :: rest =>
      rw [next]
      exact if_pos (.inr (.inr rfl))
    | [_] => rfl
    | [] => rfl
  | badLength s t length version data h =>
    rw [next]
    refine if_pos ?_
    omega

/-- Entries that are laid out come out as they are, in their order and up to what ends them. -/
theorem entriesFrom_layout (hentries : ∀ e ∈ entries, e.Fits) (htail : EndsEntries tail) :
    entriesFrom (entries.flatMap encode ++ tail) = entries := by
  induction entries with
  | nil => exact entriesFrom_of_next_none htail.next_eq
  | cons e entries ih =>
    obtain ⟨he, hrest⟩ := List.forall_mem_cons.mp hentries
    rw [List.flatMap_cons, List.append_assoc, entriesFrom_of_next (next_encode he _), ih hrest]

/-! ## What stands in front -/

/-- What there is to be gone through of an area: what is behind an XA record in front, or all of
it. -/
def start (systemUse : Bytes) : Bytes :=
  if (XaAttributes.parse systemUse).isSome then systemUse.drop XaAttributes.recordLength
  else systemUse

/-- The entries of a system use area are those behind an XA record, if one leads the area. -/
theorem systemUseEntries_eq (systemUse : Bytes) :
    systemUseEntries systemUse = entriesFrom (start systemUse) := by
  rw [systemUseEntries, start]
  cases XaAttributes.parse systemUse <;> rfl

/-- What can stand in front of the bytes `area`: an XA record, or nothing, where the bytes are too few
for one or do not have its letters. -/
inductive IsFront : (front area : Bytes) → Prop
  | xaRecord {front : Bytes} (hlength : front.length = XaAttributes.recordLength)
      (hletters : front.slice 6 2 = XaAttributes.signature) (area : Bytes) : IsFront front area
  | nothing {area : Bytes} (h : area.length < XaAttributes.recordLength ∨
      area.slice 6 2 ≠ XaAttributes.signature) : IsFront [] area

/-- Entries start behind what stands in front of them, be it an XA record or nothing. -/
theorem IsFront.start_eq {front : Bytes} (h : IsFront front area) :
    start (front ++ area) = area := by
  cases h with
  | xaRecord hlength hletters =>
    have hxa : (XaAttributes.parse (front ++ area)).isSome = true := by
      rw [XaAttributes.isSome_parse, List.length_append, Bytes.slice_append_left]
      · exact ⟨by omega, hletters⟩
      · rw [hlength]
        decide
    rw [start, if_pos hxa, ← hlength, List.drop_left]
  | nothing h =>
    refine if_neg ?_
    rw [XaAttributes.isSome_parse, List.nil_append]
    rintro ⟨hlength, hletters⟩
    exact h.elim (Nat.not_lt.mpr hlength) fun hne => hne hletters

/-- The entries of an area are those that are laid out in it, behind an XA record or at its start. -/
theorem systemUseEntries_layout {front : Bytes} (hentries : ∀ e ∈ entries, e.Fits)
    (htail : EndsEntries tail) (hfront : IsFront front (entries.flatMap encode ++ tail)) :
    systemUseEntries (front ++ (entries.flatMap encode ++ tail)) = entries := by
  rw [systemUseEntries_eq, hfront.start_eq, entriesFrom_layout hentries htail]

end SystemUseEntry

/-! ## Names in parts -/

namespace RockRidge

/-- The entries carry a name in these parts, of which the last has these flags: every part but the
last says that the name goes on, and other entries stand anywhere. What is behind the last part makes
no difference, unless that says that the name goes on too; then no part is behind it. -/
inductive CarriesName : (parts : List Bytes) → (flags : UInt8) → List SystemUseEntry → Prop
  | other {parts : List Bytes} {flags : UInt8} {entries : List SystemUseEntry} (e : SystemUseEntry)
      (he : e.signature ≠ alternateNameSignature) (h : CarriesName parts flags entries) :
    CarriesName parts flags (e :: entries)
  | part {parts : List Bytes} {flags : UInt8} {entries : List SystemUseEntry}
      (version partFlags : UInt8) (content : Bytes) (hmore : partFlags &&& continueFlag ≠ 0)
      (h : CarriesName parts flags entries) :
    CarriesName (content :: parts) flags
      (⟨alternateNameSignature, version, partFlags :: content⟩ :: entries)
  | last (version flags : UInt8) (content : Bytes) (behind : List SystemUseEntry)
      (hlast : flags &&& continueFlag = 0 ∨ ∀ e ∈ behind, e.signature ≠ alternateNameSignature) :
    CarriesName [content] flags (⟨alternateNameSignature, version, flags :: content⟩ :: behind)

/-- The parts of a name, as they are looked for among the entries of an area. -/
def nameData (entries : List SystemUseEntry) : List Bytes :=
  (entries.filter fun e => e.signature = alternateNameSignature).map SystemUseEntry.data

/-- The parts are put together in their order, and the flags are those of the last. -/
theorem joinParts_data {parts : List Bytes} {flags : UInt8} {entries : List SystemUseEntry}
    (h : CarriesName parts flags entries) :
    joinParts (nameData entries) = some (flags, parts.flatten) := by
  induction h with
  | other e he h ih =>
    rw [nameData, List.filter_cons_of_neg (by simpa using he)]
    exact ih
  | @part parts flags entries version partFlags content hmore h ih =>
    rw [nameData, List.filter_cons_of_pos (by simp), List.map_cons, ← nameData]
    cases hlater : nameData entries with
    | nil =>
      rw [hlater] at ih
      cases ih
    | cons later others =>
      rw [hlater] at ih
      rw [joinParts, if_neg hmore, ih]
      rfl
  | last version flags content behind hlast =>
    rw [nameData, List.filter_cons_of_pos (by simp), List.map_cons, ← nameData,
      List.flatten_singleton]
    rcases hlast with hended | hnone
    · cases nameData behind with
      | nil => rfl
      | cons later others => rw [joinParts, if_pos hended]
    · have hbehind : nameData behind = [] := by
        rw [nameData, List.filter_eq_nil_iff.mpr (by simpa using hnone)]
        rfl
      rw [hbehind]
      rfl

/-- The name is found, unless its last part stands for the directory itself or for its parent. -/
theorem alternateName?_of_carriesName {systemUse : Bytes} {parts : List Bytes} {flags : UInt8}
    (h : CarriesName parts flags (systemUseEntries systemUse)) :
    alternateName? systemUse = if flags &&& directoryFlags = 0
      then some ⟨flags, Utf8.decodeLossy parts.flatten⟩ else none := by
  have hparts := joinParts_data h
  rw [nameData] at hparts
  rw [alternateName?]
  dsimp only
  rw [hparts]
  rfl

end RockRidge

open RockRidge in
/-- **What is laid out in an area is read back.** Behind an XA record, or from the first byte on where
there is none, entries come out as they are up to bytes that are no entry, and after them every step
gives nothing. A name in parts is that of all the parts together, unless the last of them says that it
stands for the directory itself or for its parent. -/
theorem SystemUseEntry.laid_out_reads_back {front tail : Bytes} {entries : List SystemUseEntry}
    (hentries : ∀ e ∈ entries, e.Fits) (htail : EndsEntries tail)
    (hfront : IsFront front (entries.flatMap encode ++ tail)) :
    let area := front ++ (entries.flatMap encode ++ tail)
    systemUseEntries area = entries ∧
      (∀ count, answers count (start area) =
        (entries.map some).take count ++ List.replicate (count - entries.length) none) ∧
      ∀ parts flags, CarriesName parts flags entries →
        alternateName? area = if flags &&& directoryFlags = 0
          then some ⟨flags, Utf8.decodeLossy parts.flatten⟩ else none := by
  intro area
  have hread : systemUseEntries area = entries := systemUseEntries_layout hentries htail hfront
  refine ⟨hread, fun count => ?_, fun parts flags hparts => ?_⟩
  · rw [answers_eq, ← systemUseEntries_eq, hread]
  · exact alternateName?_of_carriesName (hread ▸ hparts)

namespace SystemUseEntry

open RockRidge

/-- The name "aöb" in two parts with another entry between them, cut within the bytes of its "ö". -/
def cutName : List SystemUseEntry :=
  [⟨alternateNameSignature, 1, [0x01, 0x61, 0xC3]⟩, ⟨.ofChars 'P' 'X', 2, [7]⟩,
    ⟨alternateNameSignature, 1, [0x00, 0xB6, 0x62]⟩]

/-- A name of which a character is cut in two is read back from entries between an XA record and a
terminator, and nothing that the terminator hides is. -/
theorem laid_out_reads_back_cutName :
    let xa := (XaAttributes.encode ⟨1, 2, 0x1000, 1⟩)
    let hidden := (⟨alternateNameSignature, 1, [0x00, 0x63]⟩ : SystemUseEntry).encode
    let area := xa ++ (cutName.flatMap encode ++ ([0x53, 0x54] ++ hidden))
    systemUseEntries area = cutName ∧
      answers 5 (start area) = cutName.map some ++ [none, none] ∧
      alternateName? area = some ⟨0, "aöb"⟩ := by
  intro xa hidden area
  have hfits : ∀ e ∈ cutName, e.Fits := by
    intro e he
    simp only [cutName, List.mem_cons, List.not_mem_nil, or_false] at he
    rcases he with rfl | rfl | rfl <;> exact ⟨by decide, by decide⟩
  have hparts : CarriesName [[0x61, 0xC3], [0xB6, 0x62]] 0 cutName :=
    .part 1 1 _ (by decide) (.other _ (by decide) (.last 1 0 _ [] (.inl (by decide))))
  have hfront : IsFront xa (cutName.flatMap encode ++ ([0x53, 0x54] ++ hidden)) :=
    .xaRecord rfl rfl _
  obtain ⟨hentries, hsteps, hname⟩ := laid_out_reads_back hfits (.terminator hidden) hfront
  exact ⟨hentries, hsteps 5, (hname _ _ hparts).trans (by decide +kernel)⟩

end SystemUseEntry

end Ecma119
