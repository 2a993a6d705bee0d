import Ecma119.Proofs.Text.Charset
import Ecma119.Proofs.Volume.DescriptorRoundTrip

/-!
# Text fields of descriptors

A descriptor with another text field is the same descriptor in all other respects: it can be written
if the first one can, and reads back with the other text fields as they were. In a primary descriptor
a field that was filled up with spaces reads as its text.
-/

namespace Ecma119.VolumeDescriptor

variable {d : VolumeDescriptor} {i j : Identifier} {field : Field i.width}

/-! ## Replacing a text field -/

/-- A field that is set has what it was set to. -/
theorem identifier_withIdentifier (d : VolumeDescriptor) (i : Identifier) (field : Field i.width) :
    (d.withIdentifier i field).identifier i = field := by
  cases i <;> rfl

/-- Setting a field leaves the others as they are. -/
theorem identifier_withIdentifier_of_ne (h : j ≠ i) :
    (d.withIdentifier i field).identifier j = d.identifier j := by
  cases i <;> cases j <;> first | rfl | exact absurd rfl h

/-- The bytes of a text field are recorded as they are, in every descriptor. -/
theorem identifier_recorded (d : VolumeDescriptor) (i : Identifier) :
    d.recorded.identifier i = d.identifier i := by
  cases i <;> rfl

theorem type_withIdentifier : (d.withIdentifier i field).type = d.type := by
  cases i <;> rfl

theorem jolietLevel?_withIdentifier : (d.withIdentifier i field).jolietLevel? = d.jolietLevel? := by
  cases i <;> rfl

/-- Setting a field does not change whether a descriptor can be laid out. -/
theorem hasLayout_withIdentifier : (d.withIdentifier i field).HasLayout ↔ d.HasLayout := by
  cases i <;> rfl

/-- Text fields have nothing to do with whether a descriptor can be written, as they always fit. -/
theorem exists_encode_withIdentifier_iff :
    (∃ sector, (d.withIdentifier i field).encode = .ok sector) ↔ ∃ sector, d.encode = .ok sector := by
  have hroot : (d.withIdentifier i field).root = d.root := by cases i <;> rfl
  have huse : (d.withIdentifier i field).applicationUse = d.applicationUse := by cases i <;> rfl
  simp only [encode_eq_ok, hroot, huse, exists_comm (α := Bytes), exists_and_left, exists_eq]

/-! ## Texts of primary descriptors -/

/-- A primary descriptor has no Joliet text: its fields are bytes with spaces behind them. -/
theorem text_of_primary (h : d.type = .primary) (i : Identifier) :
    d.text i = trimmedText (d.identifier i).toList := by
  have hlevel : d.jolietLevel? = none := by simp [jolietLevel?, h]
  simp [text, hlevel]

/-- Fields of a primary descriptor are read back alike from the descriptor and from what is recorded of
it. -/
theorem text_recorded (h : d.type = .primary) (i : Identifier) : d.recorded.text i = d.text i := by
  have hrecorded : d.recorded.type = .primary := h
  rw [text_of_primary hrecorded, text_of_primary h, identifier_recorded]

variable {charset : Charset} {s : String}

/-- A text that was put into a field reads back, and the other fields read as they did. -/
theorem text_withIdentifier (h : d.type = .primary) (hpad : charset.pad i.width s = .ok field) :
    (d.withIdentifier i field).text i = String.ofList (dropTrailing (· == ' ') s.toList) ∧
      ∀ j, j ≠ i → (d.withIdentifier i field).text j = d.text j := by
  have htype : (d.withIdentifier i field).type = .primary := type_withIdentifier.trans h
  refine ⟨?_, fun j hj => ?_⟩
  · rw [text_of_primary htype, identifier_withIdentifier, Charset.trimmedText_of_pad hpad]
  · rw [text_of_primary htype, identifier_withIdentifier_of_ne hj, text_of_primary h]

/-- **Texts go into the fields of a primary descriptor and come back.** Let a primary descriptor be one
that can be written. A text can be filled up to one of its fields exactly if it has no more bytes than
the field and each of them is in the set of characters; a text that is too long is reported to overflow
the field, whatever its bytes, and one that fits but has a byte outside the set is no name. With a
field that a text was filled up to, the descriptor can be written and is read under either policy; the
field then reads as the text without the spaces at its end, and each of the others as it did. -/
theorem textField_reads_back (htype : d.type = .primary) (hversion : d.version = 1)
    (hwritable : ∃ sector, d.encode = .ok sector) (i : Identifier) (charset : Charset) (s : String) :
    let bytes := Utf8.encode s
    ((∃ field, charset.pad i.width s = .ok field) ↔
      bytes.length ≤ i.width ∧ ∀ b ∈ bytes, charset.permits b.toNat = true) ∧
    (i.width < bytes.length →
      charset.pad i.width s = .error (.fieldOverflow bytes.length i.width)) ∧
    (bytes.length ≤ i.width → (∃ b ∈ bytes, charset.permits b.toNat = false) →
      charset.pad i.width s = .error .invalidName) ∧
    ∀ field, charset.pad i.width s = .ok field →
      ∃ sector, (d.withIdentifier i field).encode = .ok sector ∧
        ∀ policy, ∃ read, parse policy sector = .ok read ∧
          read.text i = String.ofList (dropTrailing (· == ' ') s.toList) ∧
          ∀ j, j ≠ i → read.text j = d.text j := by
  refine ⟨Charset.exists_pad_iff, Charset.pad_of_too_long, Charset.pad_of_not_permitted, ?_⟩
  intro field hpad
  have hlayout : (d.withIdentifier i field).HasLayout :=
    hasLayout_withIdentifier.mpr (.inl ⟨htype, hversion⟩)
  have hprimary : (d.withIdentifier i field).type = .primary := type_withIdentifier.trans htype
  obtain ⟨sector, hsector⟩ := exists_encode_withIdentifier_iff.mpr hwritable
  refine ⟨sector, hsector, fun policy => ⟨_, parse_encode policy hsector hlayout, ?_⟩⟩
  simp only [text_recorded hprimary]
  exact text_withIdentifier htype hpad

/-- A volume's name with letters of two bytes and spaces at its end is read back without these spaces. -/
theorem textField_reads_back_twoBytes :
    let d := blank .primary (.ofExtent [0x00] 18 2048 .directory)
    (d.type = .primary ∧ d.version = 1 ∧ ∃ sector, d.encode = .ok sector) ∧
      ∃ field sector read, Charset.any.pad 32 "Größe  " = .ok field ∧
        (d.withIdentifier .volume field).encode = .ok sector ∧
        parse .strict sector = .ok read ∧ read.text .volume = "Größe" := by
  intro d
  have hwritable : ∃ sector, d.encode = .ok sector := by
    have hself : d.root.name.length = 1 ∧ d.root.systemUse = [] := ⟨rfl, rfl⟩
    obtain ⟨root, hroot, hlength⟩ := exists_root_iff.mpr hself
    exact ⟨_, encode_eq_ok.mpr ⟨root, hroot, hlength, Nat.le_of_eq (Bytes.length_zeros _), rfl⟩⟩
  obtain ⟨haccepted, -, -, hreads⟩ :=
    textField_reads_back rfl rfl hwritable .volume .any "Größe  "
  obtain ⟨field, hpad⟩ := haccepted.mpr ⟨by decide, fun _ _ => rfl⟩
  obtain ⟨sector, hsector, hparse⟩ := hreads field hpad
  obtain ⟨read, hread, htext, -⟩ := hparse .strict
  exact ⟨⟨rfl, rfl, hwritable⟩, field, sector, read, hpad, hsector, hread,
    htext.trans (by decide +kernel)⟩

end Ecma119.VolumeDescriptor
