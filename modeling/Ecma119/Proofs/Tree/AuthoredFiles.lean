import Ecma119.Proofs.Directory.AuthoredReadBack
import Ecma119.Proofs.Directory.Identifiers
import Ecma119.Proofs.Name.Short
import Ecma119.Proofs.Tree.Descent
import Mathlib.Data.List.Nodup

/-!
# Authored files found by name

Files of short names that were put into a directory are listed as they were given: a record of each
is there, and none is continued or hidden. On an image that has this directory as its root each file
is found by its name and by its identifier. No entry before it stands in the way, since a name that
is looked for tells which file is meant, whatever its case, and is no dot.
-/

namespace Ecma119

/-! ## What is recorded -/

structure NewFile where
  name : String
  version : UInt16
  /-- The logical sector at which it starts. -/
  extent : UInt32
  /-- The number of bytes. -/
  size : UInt32
  flags : FileFlags

namespace NewFile

def identifier (file : NewFile) : String := Name.versioned "" file.name file.version

def call (file : NewFile) : Authoring.Call :=
  .ofParts (Utf8.encode file.identifier) file.extent file.size file.flags []

/-- The entry of the file's record as it reads. -/
def entry (opts : ListOptions) (file : NewFile) : Entry := .ofRecord opts file.call.record.recorded

structure IsPlain (file : NewFile) : Prop where
  short : Name.IsShort file.name.toList
  ended : file.flags.isMultiExtent = false

structure IsListedAs (file : NewFile) (e : Entry) : Prop where
  rawName : e.rawName = file.name ++ ";" ++ toString file.version.toNat
  name : e.name = String.ofList (file.name.toList.map Char.toLower)
  lsn : e.lsn = file.extent
  size : e.size = file.size.toNat

/-- The file's entry is found by its name, in whatever case, and by its identifier. -/
structure IsFoundAs (file : NewFile) (lookup : NameKind → String → Except Error Entry)
    (e : Entry) : Prop where
  byName : ∀ spelling, Name.sameIgnoringCase spelling file.name = true →
    lookup .display ("/" ++ spelling) = .ok e
  byIdentifier : lookup .recorded ("/" ++ file.name ++ ";" ++ toString file.version.toNat) = .ok e

variable {file : NewFile} {opts : ListOptions}

theorem identifier_eq (file : NewFile) :
    file.identifier = file.name ++ ";" ++ toString file.version.toNat := rfl

/-- The identifier of a new file is its name, a semicolon and the digits of its version. -/
theorem toList_identifier (file : NewFile) :
    file.identifier.toList = file.name.toList ++ ';' :: Name.versionDigits file.version :=
  Name.toList_versioned ..

/-- The identifier is longer than those of the directory itself and of its parent. -/
theorem IsPlain.length_identifier (h : file.IsPlain) : 3 ≤ file.identifier.length := by
  have hname := h.short.le_length
  rw [← String.length_toList, toList_identifier, List.length_append]
  omega

/-- The record spells the identifier out: it is ASCII, and short enough for a record. -/
theorem IsPlain.spells (h : file.IsPlain) :
    file.call.record.recorded.Spells false file.identifier where
  notDot := by
    have hbytes := Utf8.length_le_length_encode file.identifier
    have hlong := h.length_identifier
    have hne (b : UInt8) : file.call.record.recorded.name ≠ [b] := by
      intro hname
      have hlength : (Utf8.encode file.identifier).length = 1 := congrArg List.length hname
      omega
    simp [DirectoryRecord.isDot, DirectoryRecord.isSelf, DirectoryRecord.isParent, hne]
  name := rfl
  unpadded h := nomatch h

/-- A plain file is listed with its identifier as it was written, as all of that is ASCII. -/
theorem IsPlain.rawName_entry (h : file.IsPlain) (hjoliet : opts.joliet = false) :
    (file.entry opts).rawName = file.identifier := by
  show DirectoryRecord.rawName _ opts.joliet = _
  rw [hjoliet, DirectoryRecord.rawName_of_spells h.spells]

/-- A plain file is shown under its name in small letters, without the version. -/
theorem IsPlain.name_entry (h : file.IsPlain) (hjoliet : opts.joliet = false)
    (hrock : opts.rockRidge = false) :
    (file.entry opts).name = String.ofList (file.name.toList.map Char.toLower) := by
  show DirectoryRecord.displayName _ opts = _
  simp [DirectoryRecord.displayName, h.spells.notDot, hrock, hjoliet,
    DirectoryRecord.rawName_of_spells h.spells, identifier, Name.display_versioned h.short]

/-- A plain file is listed with its identifier, its name in small letters, its first sector and its size.
-/
theorem IsPlain.isListedAs (h : file.IsPlain) (hjoliet : opts.joliet = false)
    (hrock : opts.rockRidge = false) : file.IsListedAs (file.entry opts) where
  rawName := h.rawName_entry hjoliet
  name := h.name_entry hjoliet hrock
  lsn := rfl
  size := rfl

end NewFile

/-! ## What is listed -/

section Listing

variable {opts : ListOptions} {files : List NewFile} {extent start : Bytes}
variable {selfExtent selfSize parentExtent parentSize : UInt32}

/-- The records that a directory is begun with: one for the directory itself, and one for its parent. -/
def begunRecords (selfExtent selfSize parentExtent parentSize : UInt32) : List DirectoryRecord :=
  [.ofExtent [0x00] selfExtent selfSize .directory,
    .ofExtent [0x01] parentExtent parentSize .directory]

/-- The two records that a directory begins with are dot records that are complete in themselves. -/
theorem of_mem_begunRecords {r : DirectoryRecord}
    (h : r ∈ begunRecords selfExtent selfSize parentExtent parentSize) :
    r.isDot = true ∧ r.flags.isMultiExtent = false := by
  rw [begunRecords, List.mem_pair] at h
  rcases h with rfl | rfl <;> exact ⟨rfl, Authoring.isMultiExtent_directory⟩

/-- A walk comes by the two records of the directory and then by those of the files, in their order. -/
theorem exists_records_authored (policy : EndianPolicy)
    (hbegun : (Authoring.beginDirectory selfExtent selfSize parentExtent parentSize).run.run extent =
      (.ok (), start))
    (hmade : ∀ outcome ∈ (Authoring.performAll (files.map NewFile.call) start).1,
      ∃ offset, outcome = .ok offset) :
    ∃ items : List (Nat × DirectoryRecord),
      recordsOf policy (Authoring.performAll (files.map NewFile.call) start).2 = items.map .ok ∧
      items.map Prod.snd = begunRecords selfExtent selfSize parentExtent parentSize ++
        files.map fun file => file.call.record.recorded := by
  obtain ⟨stop, hauthored⟩ :=
    (Authoring.authored_beginDirectory policy hbegun).performAll (files.map NewFile.call)
  refine ⟨_, hauthored.recordsOf_eq, ?_⟩
  rw [List.map_append, Authoring.map_snd_added hmade, List.map_map]
  rfl

/-- Plain files are all listed, in the order in which they were added, as none is a dot record. -/
theorem listed_files (hplain : ∀ file ∈ files, file.IsPlain) :
    listed opts (files.map fun file => file.call.record.recorded) =
      files.map fun file => file.call.record.recorded := by
  refine List.filter_eq_self.mpr fun r hr => ?_
  obtain ⟨file, hfile, rfl⟩ := List.mem_map.mp hr
  simp [(hplain file hfile).spells.notDot]

/-- The files are listed behind the directory's own records, if these are, as an entry each. -/
theorem parseDirectory_authored
    (hbegun : (Authoring.beginDirectory selfExtent selfSize parentExtent parentSize).run.run extent =
      (.ok (), start))
    (hplain : ∀ file ∈ files, file.IsPlain)
    (hmade : ∀ outcome ∈ (Authoring.performAll (files.map NewFile.call) start).1,
      ∃ offset, outcome = .ok offset) :
    parseDirectory opts (Authoring.performAll (files.map NewFile.call) start).2 =
      .ok ((listed opts (begunRecords selfExtent selfSize parentExtent parentSize)).map
        (.ofRecord opts) ++ files.map (NewFile.entry opts)) := by
  obtain ⟨items, hwalk, hitems⟩ := exists_records_authored opts.policy hbegun hmade
  have hended : ∀ r ∈ items.map Prod.snd, r.flags.isMultiExtent = false := by
    intro r hr
    rw [hitems, List.mem_append, List.mem_map] at hr
    rcases hr with hr | ⟨file, hfile, rfl⟩
    · exact (of_mem_begunRecords hr).2
    · exact (hplain file hfile).ended
  rw [parseDirectory, hwalk, assemble_of_ended hended, hitems, listed_append, listed_files hplain,
    List.map_append, List.map_map]
  rfl

end Listing

/-! ## What is found -/

section Lookup

variable {opts : ListOptions} {names : NameKind} {files : List NewFile} {file : NewFile}
variable {spelling : String}

/-- Where only one element is as it has to be, that one is found, wherever it stands. -/
theorem find?_eq_some_of_only {α : Type} {p : α → Bool} {l : List α} {x : α} (hx : x ∈ l)
    (hp : p x = true) (honly : ∀ y ∈ l, p y = true → y = x) : l.find? p = some x := by
  obtain ⟨first, hfirst⟩ := Option.isSome_iff_exists.mp (List.find?_isSome.mpr ⟨x, hx, hp⟩)
  rw [hfirst, honly first (List.mem_of_find?_eq_some hfirst) (List.find?_some hfirst)]

/-- The names of the directory itself and of its parent are one dot and two, too short for a file's. -/
theorem length_nameOf_of_isDot {r : DirectoryRecord} (h : r.isDot = true) :
    ((Entry.ofRecord opts r).nameOf names).length ≤ 2 := by
  have hraw : (r.rawName opts.joliet).length ≤ 2 := by
    rw [DirectoryRecord.rawName]
    split
    · decide
    · next hself =>
      have hparent : r.isParent = true := by simpa [DirectoryRecord.isDot, hself] using h
      rw [if_pos hparent]
      decide
  cases names with
  | display =>
    show (r.displayName opts).length ≤ 2
    rwa [DirectoryRecord.displayName, if_pos h]
  | recorded => exact hraw

namespace NewFile

/-- What is shown of a file has the spellings of its name, and no others. -/
theorem IsPlain.same_display_iff (h : file.IsPlain) (hjoliet : opts.joliet = false)
    (hrock : opts.rockRidge = false) :
    Name.sameIgnoringCase ((file.entry opts).nameOf .display) spelling = true ↔
      Name.sameIgnoringCase file.name spelling = true := by
  rw [Entry.nameOf, h.name_entry hjoliet hrock, Name.sameIgnoringCase_iff, String.toList_ofList,
    Name.map_toLower_map_toLower h.short.areACharacters, ← Name.sameIgnoringCase_iff]

end NewFile

/-- The only file that can be meant is found, since the directory's own records have short names. -/
theorem find?_authored {dots : List Entry} (hdots : ∀ x ∈ dots, (x.nameOf names).length ≤ 2)
    (hdistinct : (files.map NewFile.name).Nodup) (hfile : file ∈ files)
    (hlong : 3 ≤ spelling.length)
    (hsame : Name.sameIgnoringCase ((file.entry opts).nameOf names) spelling = true)
    (honly : ∀ other ∈ files, Name.sameIgnoringCase ((other.entry opts).nameOf names) spelling = true →
      other.name = file.name) :
    (dots ++ files.map (NewFile.entry opts)).find?
      (fun x => Name.sameIgnoringCase (x.nameOf names) spelling) = some (file.entry opts) := by
  refine find?_eq_some_of_only (by simp [List.mem_map_of_mem hfile]) hsame fun x hx hx' => ?_
  rw [List.mem_append, List.mem_map] at hx
  rcases hx with hx | ⟨other, hother, rfl⟩
  · have hshort := hdots x hx
    have hlength := Name.length_eq_of_sameIgnoringCase hx'
    omega
  · rw [List.inj_on_of_nodup_map hdistinct hother hfile (honly other hother hx')]

variable {δ : Type} [BlockDevice δ] {s : SectorSource δ} {image : Image} {framing : Framing}
variable {volume : Volume} {entries : List Entry} {e : Entry}

/-- A short path of one component is looked up in the root directory, which is listed for that. -/
theorem run_lookup_name (hs : s.Serves image framing)
    (hlisting : image.listing framing opts (volume.rootEntry opts) = .ok entries)
    (hlong : 3 ≤ spelling.length) (hshort : spelling.length ≤ 18) (hslash : '/' ∉ spelling.toList)
    (hfind : entries.find? (fun x => Name.sameIgnoringCase (x.nameOf names) spelling) = some e) :
    ((Tree.lookup volume opts names ("/" ++ spelling)).run.run s).1 = .ok e := by
  have hlength : ("/" ++ spelling).utf8ByteSize ≤ 255 := by
    have hsize := Utf8.utf8ByteSize_le ("/" ++ spelling)
    rw [String.length_append] at hsize
    have hone : "/".length = 1 := rfl
    omega
  have hne : spelling ≠ "" := by
    rintro rfl
    exact absurd hlong (by decide)
  have hcomponents : pathComponents ("/" ++ spelling) = [spelling] :=
    pathComponents_child "" hne hslash
  have hdescend : image.descend framing opts names (volume.rootEntry opts) [spelling] = .ok e := by
    rw [Image.descend, List.foldlM_cons, Image.child_of_listing hlisting, hfind]
    rfl
  obtain ⟨s', hrun, -⟩ := Tree.yields_lookup volume hlength s hs
  rw [hrun, hcomponents, hdescend]

/-- On an image with such a listing of the root directory every file is found, by both of its names. -/
theorem NewFile.isFoundAs {dots : List Entry} (hs : s.Serves image framing)
    (hjoliet : opts.joliet = false) (hrock : opts.rockRidge = false)
    (hlisting : image.listing framing opts (volume.rootEntry opts) =
      .ok (dots ++ files.map (NewFile.entry opts)))
    (hdots : ∀ names, ∀ x ∈ dots, (x.nameOf names).length ≤ 2)
    (hplain : ∀ file ∈ files, file.IsPlain) (hdistinct : (files.map NewFile.name).Nodup)
    (hfile : file ∈ files) :
    file.IsFoundAs (fun names path => ((Tree.lookup volume opts names path).run.run s).1)
      (file.entry opts) where
  byName spelling hspelling := by
    have hshort := (hplain file hfile).short
    have hlength : spelling.length = file.name.toList.length :=
      (Name.length_eq_of_sameIgnoringCase hspelling).trans String.length_toList.symm
    have hmin := hshort.le_length
    have hmax := hshort.length_le
    have hslash := Name.slash_not_mem_of_sameIgnoringCase hshort.areACharacters
      hshort.isFileName.slash_not_mem hspelling
    have hsame := ((hplain file hfile).same_display_iff hjoliet hrock).mpr
      (Name.sameIgnoringCase_symm hspelling)
    refine run_lookup_name hs hlisting (by omega) (by omega) hslash
      (find?_authored (hdots .display) hdistinct hfile (by omega) hsame ?_)
    -- a file that is found by this spelling has a name that differs in case at most, so not at all
    intro other hother hfound
    have hother' := hplain other hother
    exact Name.eq_of_sameIgnoringCase hother'.short.areACharacters hshort.areACharacters
      (Name.sameIgnoringCase_trans ((hother'.same_display_iff hjoliet hrock).mp hfound) hspelling)
  byIdentifier := by
    have hplain' := hplain file hfile
    have hpath : "/" ++ file.name ++ ";" ++ toString file.version.toNat = "/" ++ file.identifier := by
      rw [identifier_eq, String.append_assoc, String.append_assoc, String.append_assoc]
    have hsame : Name.sameIgnoringCase ((file.entry opts).nameOf .recorded) file.identifier = true := by
      rw [Entry.nameOf, hplain'.rawName_entry hjoliet, Name.sameIgnoringCase_iff]
    rw [hpath]
    refine run_lookup_name hs hlisting hplain'.length_identifier
      (Name.length_versioned_le hplain'.short _) (Name.slash_not_mem_versioned hplain'.short _)
      (find?_authored (hdots .recorded) hdistinct hfile hplain'.length_identifier hsame ?_)
    intro other hother hfound
    rw [Entry.nameOf, (hplain other hother).rawName_entry hjoliet] at hfound
    exact Name.eq_of_sameIgnoringCase_versioned (hplain other hother).short hplain'.short hfound

end Lookup

/-- **Authored files are found by their names.** Files of different short names, each of one record
without a system use area, are put into a directory that was begun before, and all these calls succeed.
Listed as plain records, the directory then has an entry for each file, in the order of the calls, with
the identifier that was recorded, the name in small letters, and the sector and the size that were
given. On any image that has the directory as its root, a source that serves the image finds the entry
by the file's name in any case and by its identifier, whether the directory's own records are listed
there or not. -/
theorem authored_files_found {opts : ListOptions} (hjoliet : opts.joliet = false)
    (hrock : opts.rockRidge = false) (hdots : opts.includeDots = false)
    {selfExtent selfSize parentExtent parentSize : UInt32} {extent start : Bytes}
    (hbegun : (Authoring.beginDirectory selfExtent selfSize parentExtent parentSize).run.run extent =
      (.ok (), start))
    {files : List NewFile} (hplain : ∀ file ∈ files, file.IsPlain)
    (hdistinct : (files.map NewFile.name).Nodup)
    (hmade : ∀ outcome ∈ (Authoring.performAll (files.map NewFile.call) start).1,
      ∃ offset, outcome = .ok offset) :
    let directory := (Authoring.performAll (files.map NewFile.call) start).2
    ∃ entryOf : NewFile → Entry,
      parseDirectory opts directory = .ok (files.map entryOf) ∧
      (∀ file ∈ files, file.IsListedAs (entryOf file)) ∧
      ∀ (image : Image) (framing : Framing) (volume : Volume) (includeDots : Bool),
        image.directoryBytes framing (volume.rootEntry opts) = .ok directory →
        ∀ (δ : Type) [BlockDevice δ] (s : SectorSource δ), s.Serves image framing →
          ∀ file ∈ files, file.IsFoundAs (fun names path =>
            ((Tree.lookup volume { opts with includeDots } names path).run.run s).1)
              (entryOf file) := by
  intro directory
  refine ⟨NewFile.entry opts, ?_, fun file hfile => (hplain file hfile).isListedAs hjoliet hrock, ?_⟩
  · have hhidden : listed opts (begunRecords selfExtent selfSize parentExtent parentSize) = [] := by
      refine List.filter_eq_nil_iff.mpr fun r hr => ?_
      simp [(of_mem_begunRecords hr).1, hdots]
    rw [parseDirectory_authored hbegun hplain hmade, hhidden]
    rfl
  · intro image framing volume includeDots hroot δ _ s hs file hfile
    have hlisting : image.listing framing { opts with includeDots }
        (volume.rootEntry { opts with includeDots }) = _ :=
      Image.listing_eq_ok.mpr ⟨directory, hroot, parseDirectory_authored hbegun hplain hmade⟩
    refine NewFile.isFoundAs hs hjoliet hrock hlisting (fun names x hx => ?_) hplain hdistinct hfile
    obtain ⟨r, hr, rfl⟩ := List.mem_map.mp hx
    exact length_nameOf_of_isDot (of_mem_begunRecords (List.mem_of_mem_filter hr)).1

/-- Two files, the second with a version of five digits. -/
def twoFiles : List NewFile := [⟨"A.B", 1, 1, 5, ⟨0x01⟩⟩, ⟨"READ_ME.MD", 65535, 2, 0, ⟨0⟩⟩]

/-- A directory of 200 bytes in the first sector, with these files. -/
def twoFilesDirectory : Bytes :=
  (Authoring.performAll (twoFiles.map NewFile.call)
    ((Authoring.beginDirectory 0 200 0 200).run.run (Bytes.zeros 200)).2).2

/-- An image of one sector that has this root directory. -/
def twoFilesImage : Image := .inSectors (twoFilesDirectory ++ Bytes.zeros 1848)

theorem isPlain_of_mem_twoFiles : ∀ file ∈ twoFiles, file.IsPlain := by
  have hfirst : Name.IsShort "A.B".toList :=
    ⟨['A'], ['B'], rfl, ⟨by simp, by simp, by simp [isDCharacter]⟩,
      ⟨by simp, by simp, by simp [isDCharacter]⟩⟩
  have hsecond : Name.IsShort "READ_ME.MD".toList :=
    ⟨"READ_ME".toList, "MD".toList, rfl, ⟨by simp, by simp, by simp [isDCharacter]⟩,
      ⟨by simp, by simp, by simp [isDCharacter]⟩⟩
  intro file hfile
  rw [twoFiles, List.mem_pair] at hfile
  rcases hfile with rfl | rfl
  · exact ⟨hfirst, by decide⟩
  · exact ⟨hsecond, by decide⟩

/-- The second file is found in either case, although the first one is listed before it. -/
theorem authored_files_found_twoFiles :
    let volume : Volume := ⟨.blank .primary (.ofExtent [0x00] 0 200 .directory), none, false⟩
    let s : SectorSource MemoryDevice := .ofDevice (.ofBytes 2048 twoFilesImage.bytes)
    let lookup names path :=
      ((Tree.lookup volume { includeDots := true } names path).run.run s).1
    ∃ first second : Entry, parseDirectory {} twoFilesDirectory = .ok [first, second] ∧
      second.rawName = "READ_ME.MD;65535" ∧ second.name = "read_me.md" ∧ second.lsn = 2 ∧
      lookup .display "/Read_Me.md" = .ok second ∧
      lookup .recorded "/READ_ME.MD;65535" = .ok second := by
  intro volume s lookup
  have hs : s.Serves twoFilesImage .standard :=
    SectorSource.serves_ofDevice
      (MemoryDevice.heldBy_ofBytes rfl (by decide +kernel) (by decide +kernel)) .standard
  have hbegun : ((Authoring.beginDirectory 0 200 0 200).run.run (Bytes.zeros 200)).1 = .ok () :=
    eq_ok_of_toOption (by decide +kernel)
  have hmade : ∀ outcome ∈ (Authoring.performAll (twoFiles.map NewFile.call)
      ((Authoring.beginDirectory 0 200 0 200).run.run (Bytes.zeros 200)).2).1,
      ∃ offset, outcome = .ok offset := by
    intro outcome houtcome
    have hsome : ∀ made ∈ (Authoring.performAll (twoFiles.map NewFile.call)
        ((Authoring.beginDirectory 0 200 0 200).run.run (Bytes.zeros 200)).2).1,
        made.toOption.isSome = true := by decide +kernel
    obtain ⟨offset, hoffset⟩ := Option.isSome_iff_exists.mp (hsome outcome houtcome)
    exact ⟨offset, eq_ok_of_toOption hoffset⟩
  have hroot : twoFilesImage.directoryBytes .standard (volume.rootEntry {}) =
      .ok twoFilesDirectory := eq_ok_of_toOption (by decide +kernel)
  have hjoliet : ({} : ListOptions).joliet = false := rfl
  obtain ⟨entryOf, hlisted, htold, hfound⟩ := authored_files_found hjoliet rfl rfl
    (Prod.ext hbegun rfl) isPlain_of_mem_twoFiles (by decide) hmade
  have hmem : ⟨"READ_ME.MD", 65535, 2, 0, ⟨0⟩⟩ ∈ twoFiles := by simp [twoFiles]
  have hsecond := htold _ hmem
  have hlookup := hfound twoFilesImage .standard volume true hroot MemoryDevice s hs _ hmem
  exact ⟨_, _, hlisted, hsecond.rawName, hsecond.name.trans (by decide +kernel), hsecond.lsn,
    hlookup.byName "Read_Me.md" (by decide), hlookup.byIdentifier⟩

end Ecma119
