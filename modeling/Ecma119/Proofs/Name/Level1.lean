import Ecma119.Name
import Ecma119.Proofs.Name.Version

/-!
# The grammar of level 1

A check goes over the path once and counts the characters since the last separator. What it accepts
after `run` characters is a run that is shorter by as many, and what comes behind. From this, by
induction over the path, a directory path is what splits into components, and a file name is a
component, a dot and an extension. The bytes that are kept free are enough for any version, and no
part of a path is taken for one.
-/

namespace Ecma119.Name

variable {least most run : Nat} {c : Char} {part rest path : List Char}

/-! ## Runs of d-characters -/

structure IsRun (least most : Nat) (part : List Char) : Prop where
  least_le : least ≤ part.length
  le_most : part.length ≤ most
  permitted : ∀ c ∈ part, isDCharacter c.toNat = true

/-- A run with a dot and an extension behind it. -/
def IsDotted (least most : Nat) (part : List Char) : Prop :=
  ∃ stem ext, part = stem ++ '.' :: ext ∧ IsRun least most stem ∧ IsRun 0 3 ext

def IsComponent (part : List Char) : Prop := IsRun 1 8 part

def IsFileName (file : List Char) : Prop := IsDotted 1 8 file

theorem isDCharacter_slash : isDCharacter 0x2F = false := rfl

theorem isDCharacter_dot : isDCharacter 0x2E = false := rfl

/-- A d-character is none of the characters that are not, such as the slash, the dot and the semicolon.
-/
theorem ne_of_isDCharacter {d : Char} (hc : isDCharacter c.toNat = true)
    (hd : isDCharacter d.toNat = false) : c ≠ d := by
  rintro rfl
  simp [hc] at hd

/-- No characters are a run exactly if none are needed. -/
theorem isRun_nil_iff : IsRun least most [] ↔ least = 0 :=
  ⟨fun h => Nat.le_zero.mp h.least_le, fun h => ⟨h.le, Nat.zero_le _, by simp⟩⟩

/-- A run can start with a d-character as long as it may have more characters, and then one fewer is
needed and one fewer allowed. -/
theorem isRun_cons_iff :
    IsRun least most (c :: part) ↔
      0 < most ∧ isDCharacter c.toNat = true ∧ IsRun (least - 1) (most - 1) part := by
  constructor
  · intro h
    have hleast := h.least_le
    have hmost := h.le_most
    rw [List.length_cons] at hleast hmost
    obtain ⟨hc, hpart⟩ := List.forall_mem_cons.mp h.permitted
    exact ⟨by omega, hc, by omega, by omega, hpart⟩
  · rintro ⟨hpos, hc, hleast, hmost, hpart⟩
    refine ⟨?_, ?_, List.forall_mem_cons.mpr ⟨hc, hpart⟩⟩ <;> rw [List.length_cons] <;> omega

theorem not_isDotted_nil : ¬ IsDotted least most [] := by
  simp [IsDotted]

/-- A dotted name starts either with its dot, once its first part is long enough, and an extension behind
it, or with a d-character of the first part. -/
theorem isDotted_cons_iff :
    IsDotted least most (c :: rest) ↔
      (c = '.' ∧ least = 0 ∧ IsRun 0 3 rest) ∨
        (0 < most ∧ isDCharacter c.toNat = true ∧ IsDotted (least - 1) (most - 1) rest) := by
  constructor
  · rintro ⟨stem, ext, hpart, hstem, hext⟩
    cases stem with
    | nil =>
      obtain ⟨rfl, rfl⟩ : c = '.' ∧ rest = ext := by simpa using hpart
      exact .inl ⟨rfl, isRun_nil_iff.mp hstem, hext⟩
    | cons d stem =>
      obtain ⟨rfl, rfl⟩ : c = d ∧ rest = stem ++ '.' :: ext := by simpa using hpart
      obtain ⟨hpos, hc, hstem⟩ := isRun_cons_iff.mp hstem
      exact .inr ⟨hpos, hc, stem, ext, rfl, hstem, hext⟩
  · rintro (⟨rfl, hleast, hext⟩ | ⟨hpos, hc, stem, ext, rfl, hstem, hext⟩)
    · exact ⟨[], rest, rfl, isRun_nil_iff.mpr hleast, hext⟩
    · exact ⟨c :: stem, ext, rfl, isRun_cons_iff.mpr ⟨hpos, hc, hstem⟩, hext⟩

/-- There are none but d-characters in a run. -/
theorem IsRun.not_mem (h : IsRun least most part) (hc : isDCharacter c.toNat = false) :
    c ∉ part :=
  fun hmem => ne_of_isDCharacter (h.permitted c hmem) hc rfl

theorem not_isComponent_nil : ¬ IsComponent [] := by
  simp [IsComponent, isRun_nil_iff]

/-- A file name is more than a dot: it needs a character in front of it or behind it. -/
theorem IsFileName.ne_dot (h : IsFileName part) : part ≠ ['.'] := by
  rintro rfl
  simp [IsFileName, isDotted_cons_iff, isDCharacter_dot] at h

/-- There is no slash in a file name, so that the last slash of a path ends the directory. -/
theorem IsFileName.slash_not_mem (h : IsFileName part) : '/' ∉ part := by
  obtain ⟨stem, ext, rfl, hstem, hext⟩ := h
  have hfront : '/' ∉ stem := hstem.not_mem isDCharacter_slash
  have hback : '/' ∉ ext := hext.not_mem isDCharacter_slash
  simp [hfront, hback]

/-! ## What the checks accept -/

/-- After `run` characters of a component come the rest of it and other components. -/
theorem directoryTailValid_iff {first : List Char} {parts : List (List Char)}
    (h : path.splitOn '/' = first :: parts) :
    directoryTailValid run path = true ↔
      IsRun (1 - run) (8 - run) first ∧ ∀ part ∈ parts, IsComponent part := by
  induction path generalizing run first parts with
  | nil =>
    obtain ⟨rfl, rfl⟩ : [] = first ∧ [] = parts := by simpa using h
    simp [directoryTailValid, isRun_nil_iff, Nat.sub_eq_zero_iff_le, Nat.one_le_iff_ne_zero]
  | cons c rest ih =>
    obtain ⟨front, others, hrest⟩ := List.exists_cons_of_ne_nil (List.splitOn_ne_nil '/' rest)
    rw [List.splitOn_cons_eq_if_modifyHead, hrest] at h
    -- a d-character belongs to the component, a slash begins the next, and nothing else may come
    by_cases hc : isDCharacter c.toNat = true
    · have hslash : c ≠ '/' := ne_of_isDCharacter hc isDCharacter_slash
      obtain ⟨rfl, rfl⟩ : c :: front = first ∧ others = parts := by simpa [hslash] using h
      simp [directoryTailValid, hc, ih hrest, isRun_cons_iff, Nat.sub_sub, and_assoc]
    · obtain rfl | hslash := eq_or_ne c '/'
      · obtain ⟨rfl, rfl⟩ : [] = first ∧ front :: others = parts := by simpa using h
        simp [directoryTailValid, isDCharacter_slash, ih hrest, isRun_nil_iff, IsComponent,
          Nat.sub_eq_zero_iff_le, Nat.one_le_iff_ne_zero]
      · obtain ⟨rfl, rfl⟩ : c :: front = first ∧ others = parts := by simpa [hslash] using h
        simp [directoryTailValid, hc, hslash, isRun_cons_iff]

/-- A path that starts with a slash or a dot has no component there, and is refused. -/
theorem directoryCharsValid_eq (path : List Char) :
    directoryCharsValid path = directoryTailValid 0 path := by
  cases path with
  | nil => rfl
  | cons c rest =>
    obtain rfl | hslash := eq_or_ne c '/'
    · simp [directoryCharsValid, directoryTailValid, isDCharacter_slash]
    · obtain rfl | hdot := eq_or_ne c '.'
      · simp [directoryCharsValid, directoryTailValid, isDCharacter_dot]
      · simp [directoryCharsValid, hslash, hdot]

/-- The characters of a directory path are components between slashes. The induction is on the
characters. -/
theorem directoryCharsValid_iff :
    directoryCharsValid path = true ↔ ∀ part ∈ path.splitOn '/', IsComponent part := by
  obtain ⟨first, parts, h⟩ := List.exists_cons_of_ne_nil (List.splitOn_ne_nil '/' path)
  rw [directoryCharsValid_eq, directoryTailValid_iff h, h, List.forall_mem_cons]
  rfl

/-- Behind the dot comes the rest of an extension, which may have three characters in all. -/
theorem fileTailValid_true_iff : fileTailValid true run rest = true ↔ IsRun 0 (3 - run) rest := by
  induction rest generalizing run with
  | nil => simp [fileTailValid, isRun_nil_iff]
  | cons c rest ih =>
    by_cases hc : isDCharacter c.toNat = true
    · simp [fileTailValid, hc, ih, isRun_cons_iff, Nat.sub_sub]
    · simp [fileTailValid, hc, isRun_cons_iff]

/-- After `run` characters of a name come the rest of it, the dot and an extension. -/
theorem fileTailValid_false_iff :
    fileTailValid false run rest = true ↔ IsDotted (1 - run) (8 - run) rest := by
  induction rest generalizing run with
  | nil => simp [fileTailValid, not_isDotted_nil]
  | cons c rest ih =>
    rw [fileTailValid, isDotted_cons_iff]
    by_cases hc : isDCharacter c.toNat = true
    · have hdot : c ≠ '.' := ne_of_isDCharacter hc isDCharacter_dot
      simp [hc, hdot, ih, Nat.sub_sub]
    · simp [hc, fileTailValid_true_iff, Nat.sub_eq_zero_iff_le, Nat.one_le_iff_ne_zero, and_assoc]

/-! ## Paths -/

section Paths

variable {directory file : String}

/-- The file's path: its name, behind its directory's path if there is one. -/
def inDirectory (directory file : String) : String :=
  if directory = "" then file else directory ++ "/" ++ file

/-- A path of directories is accepted exactly if it is neither empty nor too long and each of its parts
between slashes is a component. -/
theorem directoryValid_iff {path : String} :
    directoryValid path = true ↔
      1 ≤ path.utf8ByteSize ∧ path.utf8ByteSize ≤ maxPathLength ∧
        ∀ part ∈ path.toList.splitOn '/', IsComponent part := by
  have hempty (h : ∀ part ∈ path.toList.splitOn '/', IsComponent part) :
      1 ≤ path.utf8ByteSize := by
    rw [Nat.one_le_iff_ne_zero, Ne, String.utf8ByteSize_eq_zero_iff]
    rintro rfl
    exact not_isComponent_nil (h [] (by simp))
  rw [directoryValid, Bool.and_eq_true, directoryCharsValid_iff, decide_eq_true_iff]
  exact ⟨fun ⟨hlength, h⟩ => ⟨hempty h, hlength, h⟩, fun ⟨_, h⟩ => h⟩

/-- The path of a directory does not end with a slash, as the component behind it would be empty. -/
theorem getLast?_of_directoryValid (h : directoryValid directory = true) :
    directory.toList.getLast? ≠ some '/' := by
  intro hlast
  obtain ⟨front, hfront⟩ := List.getLast?_eq_some_iff.mp hlast
  have hparts := (directoryValid_iff.mp h).2.2 []
  rw [hfront, List.splitOn_append_cons_self] at hparts
  exact not_isComponent_nil (hparts (by simp))

/-- The part behind the last slash is accepted exactly if it is the name of a file. -/
theorem fileTailValid_iff {file : List Char} :
    fileTailValid false 0 file = true ↔ IsFileName file :=
  fileTailValid_false_iff

/-- A path of a directory and a file is cut between the two, at the last slash that there is. -/
theorem pathValid_append (hfile : '/' ∉ file.toList) :
    pathValid (directory ++ "/" ++ file) = true ↔
      (directory ++ "/" ++ file).utf8ByteSize ≤ maxPathLength - versionReserve ∧
        directoryValid directory = true ∧ IsFileName file.toList := by
  have hchars : (directory ++ "/" ++ file).toList = directory.toList ++ '/' :: file.toList := by
    simp
  simp only [pathValid, hchars, cutLast?_append_cons _ hfile, String.ofList_toList,
    Bool.and_eq_true, decide_eq_true_iff, fileTailValid_iff]
  tauto

/-- A path without a slash is that of a file alone, and is only checked for its length besides. -/
theorem pathValid_of_not_mem {path : String} (h : '/' ∉ path.toList) :
    pathValid path = true ↔
      path.utf8ByteSize ≤ maxPathLength - versionReserve ∧ IsFileName path.toList := by
  simp only [pathValid, cutLast?_eq_none h, Bool.and_eq_true, decide_eq_true_iff, fileTailValid_iff]

/-- A path is a file name, or a directory path and a file name with a slash between them. -/
theorem pathValid_iff {path : String} :
    pathValid path = true ↔
      path.utf8ByteSize ≤ maxPathLength - versionReserve ∧
        (IsFileName path.toList ∨ ∃ directory file : String, path = directory ++ "/" ++ file ∧
          directoryValid directory = true ∧ IsFileName file.toList) := by
  constructor
  · intro h
    cases hcut : cutLast? '/' path.toList with
    | none =>
      have hslash := cutLast?_eq_none_iff.mp hcut
      exact ((pathValid_of_not_mem hslash).mp h).imp_right .inl
    | some parts =>
      obtain ⟨hpath, hfile⟩ := cutLast?_eq_some hcut
      have hparts : path = String.ofList parts.1 ++ "/" ++ String.ofList parts.2 := by
        rw [← String.toList_inj, hpath]
        simp
      rw [hparts] at h ⊢
      obtain ⟨hlength, hvalid⟩ := (pathValid_append (by simpa using hfile)).mp h
      exact ⟨hlength, .inr ⟨_, _, rfl, hvalid⟩⟩
  · rintro ⟨hlength, hfile | ⟨directory, file, rfl, hdirectory, hfile⟩⟩
    · exact (pathValid_of_not_mem hfile.slash_not_mem).mpr ⟨hlength, hfile⟩
    · exact (pathValid_append hfile.slash_not_mem).mpr ⟨hlength, hdirectory, hfile⟩

/-! ## Versions of valid paths -/

/-- What is said of a valid path of a directory and a file: both parts are valid, and the whole is short.
-/
theorem isFileName_of_pathValid (hslash : '/' ∉ file.toList)
    (h : pathValid (inDirectory directory file) = true) :
    (directory = "" ∨ directoryValid directory = true) ∧ IsFileName file.toList ∧
      (inDirectory directory file).utf8ByteSize ≤ maxPathLength - versionReserve := by
  by_cases hempty : directory = ""
  · rw [inDirectory, if_pos hempty] at h ⊢
    obtain ⟨hlength, hfile⟩ := (pathValid_of_not_mem hslash).mp h
    exact ⟨.inl hempty, hfile, hlength⟩
  · rw [inDirectory, if_neg hempty] at h ⊢
    obtain ⟨hlength, hdirectory, hfile⟩ := (pathValid_append hslash).mp h
    exact ⟨.inr hdirectory, hfile, hlength⟩

/-- A version stands behind the path, with a semicolon between them and the directory before it. -/
theorem versioned_eq (h : directory = "" ∨ directoryValid directory = true) (version : UInt16) :
    versioned directory file version =
      inDirectory directory file ++ ";" ++ String.ofList (versionDigits version) := by
  rw [versionDigits, String.ofList_toList]
  rcases h with rfl | h
  · rfl
  · have hkept : dropTrailing (· == '/') directory.toList = directory.toList := by
      refine dropTrailing_eq_self fun c hc => ?_
      have hslash : c ≠ '/' := by
        rintro rfl
        exact getLast?_of_directoryValid h hc
      simpa using hslash
    have hempty : directory ≠ "" := by
      rintro rfl
      exact absurd h (by decide)
    simp [versioned, inDirectory, hkept, hempty]

/-- The bytes that are kept free are enough for the semicolon and the digits, so that the whole stays
short. -/
theorem utf8ByteSize_versioned_le (h : directory = "" ∨ directoryValid directory = true)
    (hroom : (inDirectory directory file).utf8ByteSize ≤ maxPathLength - versionReserve)
    (version : UInt16) : (versioned directory file version).utf8ByteSize ≤ maxPathLength := by
  have hdigits : (String.ofList (versionDigits version)).utf8ByteSize ≤ 5 := by
    rw [String.utf8ByteSize_ofList, utf8Len_of_isDigit fun _ => isDigit_of_mem_versionDigits]
    exact length_versionDigits_le version
  have hsemicolon : ";".utf8ByteSize = 1 := rfl
  rw [versioned_eq h, String.utf8ByteSize_append, String.utf8ByteSize_append, hsemicolon]
  rw [maxPathLength, versionReserve] at hroom
  rw [maxPathLength]
  omega

/-- The dot at the end of a path is that of its file, and of nothing before it. -/
theorem withoutFinalDot_append {back : List Char} (h : back ≠ []) (front : List Char) :
    withoutFinalDot (front ++ back) = front ++ withoutFinalDot back := by
  rw [withoutFinalDot, withoutFinalDot, List.getLast?_append_of_ne_nil _ h,
    List.dropLast_append_of_ne_nil h, apply_ite (front ++ ·)]

/-- A dot at the end is dropped of the file name, and the directory in front of it stays as it is. -/
theorem withoutFinalDot_toList_inDirectory (h : file ≠ "") :
    withoutFinalDot (inDirectory directory file).toList =
      (inDirectory directory (String.ofList (withoutFinalDot file.toList))).toList := by
  by_cases hempty : directory = ""
  · simp [inDirectory, hempty]
  · have hfile : file.toList ≠ [] := by simpa using h
    simp only [inDirectory, hempty, if_false, String.toList_append, String.toList_ofList]
    exact withoutFinalDot_append hfile _

/-- No part of a path is taken for a version: only the one put behind it goes, and the dot at the
end of the file. -/
theorem stripVersion_versioned (h : directory = "" ∨ directoryValid directory = true)
    (hfile : IsFileName file.toList) (version : UInt16) :
    stripVersion (versioned directory file version) =
      inDirectory directory (String.ofList (withoutFinalDot file.toList)) := by
  have hne : file ≠ "" := by
    rintro rfl
    exact not_isDotted_nil hfile
  have hpath : (inDirectory directory file).toList ≠ ['.'] := by
    by_cases hempty : directory = ""
    · simpa [inDirectory, hempty] using hfile.ne_dot
    · simp [inDirectory, hempty, List.append_eq_singleton_iff]
  have hchars : (versioned directory file version).toList =
      (inDirectory directory file).toList ++ ';' :: versionDigits version := by
    simp [versioned_eq h]
  rw [stripVersion, hchars, stripVersionChars_versioned version hpath,
    withoutFinalDot_toList_inDirectory hne, String.ofList_toList]

end Paths

/-- **The checks accept the paths of level 1 and leave room for a version.** A directory path is one
to 255 bytes that are components of one to eight d-characters between slashes. A path is at most 249
bytes that are a file name, which is a component, one dot and up to three d-characters, with or
without a directory path and a slash before it. With a version put behind it such a path has at most
255 bytes, and taking the version off gives the path again, but for a dot at its end. -/
theorem level1_grammar :
    (∀ path : String, directoryValid path = true ↔
      1 ≤ path.utf8ByteSize ∧ path.utf8ByteSize ≤ 255 ∧
        ∀ part ∈ path.toList.splitOn '/', IsComponent part) ∧
    (∀ path : String, pathValid path = true ↔
      path.utf8ByteSize ≤ 249 ∧
        (IsFileName path.toList ∨ ∃ directory file : String, path = directory ++ "/" ++ file ∧
          directoryValid directory = true ∧ IsFileName file.toList)) ∧
    ∀ (directory file : String) (version : UInt16), '/' ∉ file.toList →
      pathValid (inDirectory directory file) = true →
        (versioned directory file version).utf8ByteSize ≤ 255 ∧
          stripVersion (versioned directory file version) =
            inDirectory directory (String.ofList (withoutFinalDot file.toList)) := by
  refine ⟨fun _ => directoryValid_iff, fun _ => pathValid_iff, ?_⟩
  intro directory file version hslash hvalid
  obtain ⟨hdirectory, hfile, hroom⟩ := isFileName_of_pathValid hslash hvalid
  exact ⟨utf8ByteSize_versioned_le hdirectory hroom version,
    stripVersion_versioned hdirectory hfile version⟩

/-- A file name that ends in its dot is accepted under two directories, with the highest version, and
loses the version and the dot. -/
theorem level1_grammar_readMe :
    ('/' ∉ "READ_ME.".toList ∧ pathValid (inDirectory "A/B_2" "READ_ME.") = true) ∧
      (versioned "A/B_2" "READ_ME." 65535).utf8ByteSize ≤ 255 ∧
      stripVersion (versioned "A/B_2" "READ_ME." 65535) = "A/B_2/READ_ME" := by
  have hslash : '/' ∉ "READ_ME.".toList := by simp
  have hvalid : pathValid (inDirectory "A/B_2" "READ_ME.") = true := by decide +kernel
  obtain ⟨hlength, hstrip⟩ := level1_grammar.2.2 "A/B_2" "READ_ME." 65535 hslash hvalid
  exact ⟨⟨hslash, hvalid⟩, hlength, hstrip.trans (by decide +kernel)⟩

end Ecma119.Name
