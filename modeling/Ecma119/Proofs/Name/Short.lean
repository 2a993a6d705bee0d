import Ecma119.Proofs.Name.Level1

/-!
# Short names

A short name is a file name of level 1 that has an extension. Its characters are a-characters, among
which there is no small letter, and so are those of its identifiers. Hence no two of them differ in
the case of letters only: whatever spelling is found, of a name or of an identifier with a version,
tells which name it is.
-/

namespace Ecma119.Name

variable {c : Char} {part : List Char} {name other spelling : String}

/-! ## The case of letters -/

def AreACharacters (part : List Char) : Prop := ∀ c ∈ part, isACharacter c.toNat = true

/-- There is no small letter among the a-characters, so that nothing is lost when they are shown in small
letters. -/
theorem case_of_isACharacter (h : isACharacter c.toNat = true) :
    c.toLower.toUpper = c ∧ c.toLower.toLower = c.toLower := by
  have hascii : c.toNat < 128 := by
    simp [isACharacter, isDCharacter] at h
    omega
  have hall : ∀ code < 128, isACharacter code = true →
      (Char.ofNat code).toLower.toUpper = Char.ofNat code ∧
        (Char.ofNat code).toLower.toLower = (Char.ofNat code).toLower := by
    decide +kernel
  simpa using hall c.toNat hascii h

/-- Names that are written in a-characters are had back in capitals from how they are shown. -/
theorem map_toUpper_map_toLower (h : AreACharacters part) :
    (part.map Char.toLower).map Char.toUpper = part := by
  rw [List.map_map]
  exact (List.map_congr_left fun c hc => (case_of_isACharacter (h c hc)).1).trans (List.map_id' _)

theorem map_toLower_map_toLower (h : AreACharacters part) :
    (part.map Char.toLower).map Char.toLower = part.map Char.toLower := by
  rw [List.map_map]
  exact List.map_congr_left fun c hc => (case_of_isACharacter (h c hc)).2

/-- Names are the same up to case if they are when both are written in small letters. -/
theorem sameIgnoringCase_iff :
    sameIgnoringCase name other = true ↔
      name.toList.map Char.toLower = other.toList.map Char.toLower := by
  simp [sameIgnoringCase]

theorem sameIgnoringCase_symm (h : sameIgnoringCase name other = true) :
    sameIgnoringCase other name = true :=
  sameIgnoringCase_iff.mpr (sameIgnoringCase_iff.mp h).symm

/-- Names that are the same as one spelling, up to case, are the same as each other. -/
theorem sameIgnoringCase_trans (h : sameIgnoringCase name spelling = true)
    (h' : sameIgnoringCase spelling other = true) : sameIgnoringCase name other = true :=
  sameIgnoringCase_iff.mpr ((sameIgnoringCase_iff.mp h).trans (sameIgnoringCase_iff.mp h'))

/-- Texts of a-characters that are the same but for case are the same, as there are no small letters in
them. -/
theorem eq_of_sameIgnoringCase (hname : AreACharacters name.toList)
    (hother : AreACharacters other.toList) (h : sameIgnoringCase name other = true) :
    name = other := by
  have hupper := congrArg (List.map Char.toUpper) (sameIgnoringCase_iff.mp h)
  rw [map_toUpper_map_toLower hname, map_toUpper_map_toLower hother] at hupper
  exact String.toList_inj.mp hupper

theorem length_eq_of_sameIgnoringCase (h : sameIgnoringCase name other = true) :
    name.length = other.length := by
  rw [← String.length_toList, ← String.length_toList]
  simpa using congrArg List.length (sameIgnoringCase_iff.mp h)

/-- A spelling of a text without slashes has none either, as case does not change them. -/
theorem slash_not_mem_of_sameIgnoringCase (hother : AreACharacters other.toList)
    (hslash : '/' ∉ other.toList) (h : sameIgnoringCase name other = true) :
    '/' ∉ name.toList := by
  intro hmem
  have hlower : '/' ∈ name.toList.map Char.toLower := List.mem_map.mpr ⟨'/', hmem, rfl⟩
  rw [sameIgnoringCase_iff.mp h] at hlower
  have hupper : '/' ∈ (other.toList.map Char.toLower).map Char.toUpper :=
    List.mem_map.mpr ⟨'/', hlower, rfl⟩
  rw [map_toUpper_map_toLower hother] at hupper
  exact hslash hupper

/-! ## Names with an extension -/

/-- The characters are those of a file name that has an extension. -/
def IsShort (file : List Char) : Prop :=
  ∃ stem ext, file = stem ++ '.' :: ext ∧ IsRun 1 8 stem ∧ IsRun 1 3 ext

theorem isACharacter_of_isDCharacter {code : Nat} (h : isDCharacter code = true) :
    isACharacter code = true := by
  simp [isACharacter, h]

theorem IsRun.areACharacters {least most : Nat} (h : IsRun least most part) :
    AreACharacters part :=
  fun c hc => isACharacter_of_isDCharacter (h.permitted c hc)

namespace IsShort

/-- A short name is written in a-characters: d-characters and the dot are among them. -/
theorem areACharacters (h : IsShort part) : AreACharacters part := by
  obtain ⟨stem, ext, rfl, hstem, hext⟩ := h
  intro c hc
  rw [List.mem_append, List.mem_cons] at hc
  rcases hc with hc | rfl | hc
  · exact hstem.areACharacters c hc
  · rfl
  · exact hext.areACharacters c hc

/-- A short name is one that the grammar of level 1 accepts for a file. -/
theorem isFileName (h : IsShort part) : IsFileName part := by
  obtain ⟨stem, ext, rfl, hstem, hext⟩ := h
  exact ⟨stem, ext, rfl, hstem, Nat.zero_le _, hext.le_most, hext.permitted⟩

/-- There is no semicolon in a short name, so that a version can be told from it. -/
theorem semicolon_not_mem (h : IsShort part) : ';' ∉ part := by
  obtain ⟨stem, ext, rfl, hstem, hext⟩ := h
  have hfront : ';' ∉ stem := hstem.not_mem rfl
  have hback : ';' ∉ ext := hext.not_mem rfl
  simp [hfront, hback]

/-- A short name has at most 12 characters: eight, a dot and three. -/
theorem length_le (h : IsShort part) : part.length ≤ 12 := by
  obtain ⟨stem, ext, rfl, hstem, hext⟩ := h
  have hfront := hstem.le_most
  have hback := hext.le_most
  simp only [List.length_append, List.length_cons]
  omega

/-- A short name has at least three characters: one, a dot and one. -/
theorem le_length (h : IsShort part) : 3 ≤ part.length := by
  obtain ⟨stem, ext, rfl, hstem, hext⟩ := h
  have hfront := hstem.least_le
  have hback := hext.least_le
  simp only [List.length_append, List.length_cons]
  omega

/-- The dot is not at the end of a short name, so that taking off a version takes nothing more. -/
theorem withoutFinalDot_eq (h : IsShort part) : withoutFinalDot part = part := by
  obtain ⟨stem, ext, rfl, -, hext⟩ := h
  have hne : ext ≠ [] := List.length_pos_iff.mp hext.least_le
  have hdot : ext.getLast? ≠ some '.' := by
    intro hlast
    have hmem : '.' ∉ ext := hext.not_mem isDCharacter_dot
    exact hmem (List.mem_of_getLast? hlast)
  have hsplit : stem ++ '.' :: ext = (stem ++ ['.']) ++ ext := by simp
  rw [hsplit, withoutFinalDot_append hne, withoutFinalDot, if_neg hdot]

end IsShort

/-! ## Identifiers with a version -/

/-- Without a directory, a versioned name is the name, a semicolon and the digits of the version. -/
theorem toList_versioned (name : String) (version : UInt16) :
    (versioned "" name version).toList = name.toList ++ ';' :: versionDigits version := by
  simp [versioned_eq (.inl rfl), inDirectory]

theorem areACharacters_versioned (h : IsShort name.toList) (version : UInt16) :
    AreACharacters (versioned "" name version).toList := by
  intro c hc
  rw [toList_versioned, List.mem_append, List.mem_cons] at hc
  rcases hc with hc | rfl | hc
  · exact h.areACharacters c hc
  · rfl
  · have hdigit := Char.isDigit_iff_toNat.mp (isDigit_of_mem_versionDigits hc)
    simp at hdigit
    simp [isACharacter]
    omega

/-- There is no slash in a short name with its version, so that it is a single component of a path. -/
theorem slash_not_mem_versioned (h : IsShort name.toList) (version : UInt16) :
    '/' ∉ (versioned "" name version).toList := by
  have hdigits : '/' ∉ versionDigits version := not_mem_versionDigits rfl
  simp [toList_versioned, h.isFileName.slash_not_mem, hdigits]

/-- A short name with its version has at most 18 characters, as the version has at most five digits. -/
theorem length_versioned_le (h : IsShort name.toList) (version : UInt16) :
    (versioned "" name version).length ≤ 18 := by
  have hname := h.length_le
  have hdigits := length_versionDigits_le version
  rw [← String.length_toList, toList_versioned, List.length_append, List.length_cons]
  omega

/-- Taking the version off gives the name again, as there is no semicolon in it. -/
theorem stripVersionChars_toList_versioned (h : IsShort name.toList) (version : UInt16) :
    stripVersionChars (versioned "" name version).toList = name.toList := by
  rw [toList_versioned, stripVersionChars_versioned version h.isFileName.ne_dot,
    h.withoutFinalDot_eq]

/-- What is shown of an identifier is its name in small letters, with the version taken off. -/
theorem display_versioned (h : IsShort name.toList) (version : UInt16) :
    display false (versioned "" name version) = String.ofList (name.toList.map Char.toLower) := by
  rw [display, stripVersionChars_toList_versioned h]
  refine congrArg String.ofList (List.map_congr_left fun c hc => ?_)
  have hsemicolon : c ≠ ';' := by
    rintro rfl
    exact h.semicolon_not_mem hc
  simp [displayChar, hsemicolon]

/-- Identifiers that are the same but for case are of the same name, also if their versions differ. -/
theorem eq_of_sameIgnoringCase_versioned {version version' : UInt16} (hname : IsShort name.toList)
    (hother : IsShort other.toList)
    (h : sameIgnoringCase (versioned "" name version) (versioned "" other version') = true) :
    name = other := by
  have heq := eq_of_sameIgnoringCase (areACharacters_versioned hname version)
    (areACharacters_versioned hother version') h
  rw [← String.toList_inj, ← stripVersionChars_toList_versioned hname version, heq,
    stripVersionChars_toList_versioned hother]

end Ecma119.Name
