import Ecma119.Proofs.Text.Ucs2
import Ecma119.Proofs.Volume.TextFields

/-!
# Blank Joliet descriptors

A blank Joliet descriptor has Joliet spaces in the identifiers of the system and of the volume, and
spaces of one byte in the other text fields. Joliet spaces are padding behind a text that is written
over them. Spaces of one byte are not: two of them are one unit, the code of a dagger. So the first
two fields read as what was written there, and the other seven as rows of daggers (`text_system`,
`text_volume`, `text_filled`).
-/

namespace Ecma119

namespace VolumeDescriptor

variable {d : VolumeDescriptor} {i j : Identifier} {bytes : Bytes} {level : JolietLevel}

/-! ## Writing over a text field -/

/-- The descriptor with bytes written over the front of a text field. -/
def withFront (d : VolumeDescriptor) (i : Identifier) (bytes : Bytes) : VolumeDescriptor :=
  d.withIdentifier i (Field.ofBytes i.width (Bytes.put (d.identifier i).toList 0 bytes) 0)

/-- A field with bytes at its front has these there and what it had before behind them. -/
theorem toList_identifier_withFront (h : bytes.length ≤ i.width) :
    ((d.withFront i bytes).identifier i).toList = Bytes.put (d.identifier i).toList 0 bytes := by
  have hlength : (d.identifier i).toList.length = i.width := Vector.length_toList
  have hfits : 0 + bytes.length ≤ (d.identifier i).toList.length := by omega
  rw [withFront, identifier_withIdentifier,
    Field.toList_ofBytes ((Bytes.length_put hfits).trans hlength)]

theorem identifier_withFront_of_ne (h : j ≠ i) :
    (d.withFront i bytes).identifier j = d.identifier j :=
  identifier_withIdentifier_of_ne h

theorem jolietLevel?_withFront : (d.withFront i bytes).jolietLevel? = d.jolietLevel? :=
  jolietLevel?_withIdentifier

/-- Changing the front of a field does not change whether a descriptor can be laid out. -/
theorem hasLayout_withFront : (d.withFront i bytes).HasLayout ↔ d.HasLayout :=
  hasLayout_withIdentifier

/-- Changing the front of a field does not change whether a descriptor can be encoded. -/
theorem exists_encode_withFront_iff :
    (∃ sector, (d.withFront i bytes).encode = .ok sector) ↔ ∃ sector, d.encode = .ok sector :=
  exists_encode_withIdentifier_iff

/-! ## Blank fields -/

/-- A Joliet descriptor has Joliet text in every text field, also in those that were padded otherwise. -/
theorem text_of_jolietLevel? (h : d.jolietLevel? = some level) (i : Identifier) :
    d.text i = Ucs2.decode (d.identifier i).toList := by
  rw [text, h]
  rfl

variable {root : DirectoryRecord}

/-- An empty Joliet descriptor is recognized as one of its level. -/
theorem jolietLevel?_blankJoliet : (blankJoliet level root).jolietLevel? = some level := by
  cases level <;> rfl

theorem hasLayout_blankJoliet : (blankJoliet level root).HasLayout := .inr ⟨rfl, .inl rfl⟩

/-- It can be written with any record that fits into the place of the root record. -/
theorem exists_encode_blankJoliet_iff :
    (∃ sector, (blankJoliet level root).encode = .ok sector) ↔
      root.name.length = 1 ∧ root.systemUse = [] := by
  rw [← exists_root_iff]
  constructor
  · rintro ⟨sector, h⟩
    obtain ⟨bytes, hencode, hlength, -, -⟩ := encode_eq_ok.mp h
    exact ⟨bytes, hencode, hlength⟩
  · rintro ⟨bytes, hencode, hlength⟩
    exact ⟨_, encode_eq_ok.mpr
      ⟨bytes, hencode, hlength, Nat.le_of_eq (Bytes.length_zeros _), rfl⟩⟩

/-- The two text fields with Joliet spaces: sixteen of them, of two bytes each. -/
theorem toList_identifier_spaces (h : i = .system ∨ i = .volume) :
    ((blankJoliet level root).identifier i).toList = Ucs2.spaces 16 := by
  rcases h with rfl | rfl <;> exact Field.toList_ofBytes (Ucs2.length_spaces 16) 0

/-- The seven text fields with spaces of one byte: all but the system and the volume identifier. -/
theorem toList_identifier_filled (hsystem : i ≠ .system) (hvolume : i ≠ .volume) :
    ((blankJoliet level root).identifier i).toList = List.replicate i.width 0x20 := by
  have hfilled : (blankJoliet level root).identifier i = Field.filled i.width 0x20 := by
    cases i <;> first | rfl | exact absurd rfl hsystem | exact absurd rfl hvolume
  rw [hfilled, Field.filled, Vector.toList_replicate]

/-! ## Texts over blank fields -/

/-- A new Joliet descriptor, with texts over the front of the first two text fields. -/
def blankJolietWith (level : JolietLevel) (root : DirectoryRecord) (system volume : String) :
    VolumeDescriptor :=
  ((blankJoliet level root).withFront .system (Ucs2.encode system)).withFront .volume
    (Ucs2.encode volume)

variable {system volume : String}

/-- It is read as it was written, but for the length of its root record, which is filled in. -/
theorem parse_blankJolietWith (policy : EndianPolicy) {sector : Bytes}
    (h : (blankJolietWith level root system volume).encode = .ok sector) :
    parse policy sector = .ok (blankJolietWith level root system volume).recorded := by
  refine parse_encode policy h ?_
  rw [blankJolietWith, hasLayout_withFront, hasLayout_withFront]
  exact hasLayout_blankJoliet

/-- With texts in both fields or without, a Joliet descriptor can be encoded exactly if the record of its
root has a name of one byte and no system use. -/
theorem exists_encode_blankJolietWith_iff :
    (∃ sector, (blankJolietWith level root system volume).encode = .ok sector) ↔
      root.name.length = 1 ∧ root.systemUse = [] := by
  rw [blankJolietWith, exists_encode_withFront_iff, exists_encode_withFront_iff,
    exists_encode_blankJoliet_iff]

theorem jolietLevel?_blankJolietWith :
    (blankJolietWith level root system volume).recorded.jolietLevel? = some level :=
  jolietLevel?_withFront.trans (jolietLevel?_withFront.trans jolietLevel?_blankJoliet)

/-- All its fields are read as UCS-2, also those that hold ASCII spaces. -/
theorem text_blankJolietWith (i : Identifier) :
    (blankJolietWith level root system volume).recorded.text i =
      Ucs2.decode ((blankJolietWith level root system volume).identifier i).toList := by
  rw [text_of_jolietLevel? jolietLevel?_blankJolietWith, identifier_recorded]

/-- A text over the front of Joliet spaces is read up to the padding at its end. -/
theorem decode_front {s : String} (hi : i = .system ∨ i = .volume)
    (hs : (Ucs2.encode s).length ≤ 32) :
    Ucs2.decode (Bytes.put ((blankJoliet level root).identifier i).toList 0 (Ucs2.encode s)) =
      String.ofList (dropTrailing Ucs2.isPadding s.toList) := by
  obtain ⟨rest, hput⟩ := Ucs2.put_spaces (n := 16) hs
  rw [toList_identifier_spaces hi, hput, Ucs2.decode_encode_spaces, Ucs2.decode_encode]

/-- The system identifier is read back as it was written, less padding at its end. -/
theorem text_system (hsystem : (Ucs2.encode system).length ≤ 32) :
    (blankJolietWith level root system volume).recorded.text .system =
      String.ofList (dropTrailing Ucs2.isPadding system.toList) := by
  rw [text_blankJolietWith, blankJolietWith, identifier_withFront_of_ne (by decide),
    toList_identifier_withFront hsystem, decode_front (.inl rfl) hsystem]

/-- The volume identifier is read back as it was written, less padding at its end. -/
theorem text_volume (hvolume : (Ucs2.encode volume).length ≤ 32) :
    (blankJolietWith level root system volume).recorded.text .volume =
      String.ofList (dropTrailing Ucs2.isPadding volume.toList) := by
  rw [text_blankJolietWith, blankJolietWith, toList_identifier_withFront hvolume,
    identifier_withFront_of_ne (by decide), decode_front (.inr rfl) hvolume]

/-- Two spaces of one byte read as a dagger, so that these fields are not read as blank. -/
theorem text_filled (hsystem : i ≠ .system) (hvolume : i ≠ .volume) :
    (blankJolietWith level root system volume).recorded.text i =
      String.ofList (List.replicate (i.width / 2) '\u2020') := by
  rw [text_blankJolietWith, blankJolietWith, identifier_withFront_of_ne hvolume,
    identifier_withFront_of_ne hsystem, toList_identifier_filled hsystem hvolume,
    Ucs2.decode_replicate]

/-- **What a new Joliet descriptor reads as.** Texts that fit are written over the front of the
identifiers of the system and of the volume. The descriptor can be written if the root record can, and
under either policy reads back as one of its Joliet level, with the two texts up to the padding at
their ends. The other seven text fields are not blank: each reads as a row of daggers, one for every
two bytes of the field. -/
theorem blankJoliet_texts (level : JolietLevel) (root : DirectoryRecord) {system volume : String}
    (hsystem : (Ucs2.encode system).length ≤ 32) (hvolume : (Ucs2.encode volume).length ≤ 32) :
    let d := blankJolietWith level root system volume
    ((∃ sector, d.encode = .ok sector) ↔ root.name.length = 1 ∧ root.systemUse = []) ∧
    ∀ sector, d.encode = .ok sector → ∀ policy, ∃ read, parse policy sector = .ok read ∧
      read.jolietLevel? = some level ∧
      read.text .system = String.ofList (dropTrailing Ucs2.isPadding system.toList) ∧
      read.text .volume = String.ofList (dropTrailing Ucs2.isPadding volume.toList) ∧
      ∀ i, i ≠ .system → i ≠ .volume →
        read.text i = String.ofList (List.replicate (i.width / 2) '\u2020') := by
  intro d
  refine ⟨exists_encode_blankJolietWith_iff, fun sector hsector policy => ?_⟩
  exact ⟨d.recorded, parse_blankJolietWith policy hsector, jolietLevel?_blankJolietWith,
    text_system hsystem, text_volume hvolume, fun _ => text_filled⟩

/-- One text ends with a space, and the other with a character of two units. -/
def twoTexts : VolumeDescriptor :=
  blankJolietWith .three (.ofExtent [0x00] 18 2048 .directory) "SYS " "VOL😀"

/-- The texts are read back without the space, and a field of 37 bytes reads as 18 daggers. -/
theorem blankJoliet_texts_twoTexts :
    ∃ sector read, twoTexts.encode = .ok sector ∧ parse .strict sector = .ok read ∧
      read.jolietLevel? = some .three ∧ read.text .system = "SYS" ∧ read.text .volume = "VOL😀" ∧
      read.text .copyrightFile = String.ofList (List.replicate 18 '\u2020') := by
  have hsystem : (Ucs2.encode "SYS ").length ≤ 32 := by decide
  have hvolume : (Ucs2.encode "VOL😀").length ≤ 32 := by decide
  obtain ⟨hencode, hreads⟩ :=
    blankJoliet_texts .three (.ofExtent [0x00] 18 2048 .directory) hsystem hvolume
  obtain ⟨sector, hsector⟩ := hencode.mpr ⟨rfl, rfl⟩
  obtain ⟨read, hparse, hlevel, hsys, hvol, hfilled⟩ := hreads sector hsector .strict
  exact ⟨sector, read, hsector, hparse, hlevel, hsys.trans (by decide +kernel),
    hvol.trans (by decide +kernel), hfilled .copyrightFile (by decide) (by decide)⟩

/-- Nothing was written over the publisher's field, and it is not empty when it is read. -/
theorem blankJoliet_not_blank :
    ∃ sector read, twoTexts.encode = .ok sector ∧ parse .strict sector = .ok read ∧
      read.jolietLevel? = some .three ∧ read.text .publisher ≠ "" := by
  obtain ⟨sector, hsector⟩ : ∃ sector, twoTexts.encode = .ok sector :=
    exists_encode_blankJolietWith_iff.mpr ⟨rfl, rfl⟩
  refine ⟨sector, _, hsector, parse_blankJolietWith .strict hsector,
    jolietLevel?_blankJolietWith, ?_⟩
  rw [text_filled (by decide) (by decide)]
  decide +kernel

end VolumeDescriptor

end Ecma119
