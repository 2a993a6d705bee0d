import Ecma119.Proofs.Directory.Chains
import Ecma119.Proofs.Tree.Listing

/-!
# Directories in several extents

Records of a directory that are flagged as continued are merged as those of a file are, into one
entry with an extent for each. A listing reads the first of these extents and no other, and does not
fail for that. `Image.allEntriesIn` tells what there is in all of them: `list_of_parsed` compares the
two.
-/

namespace Ecma119

/-! ## What there is in the extents -/

namespace Image

/-- The entries in one extent of a directory, as if it were all of it. -/
def entriesIn (image : Image) (framing : Framing) (opts : ListOptions) (x : Extent) :
    Except Error (List Entry) := do
  let sectors ← image.readSectors framing x.lsn (sectorsForBytes x.size.toNat)
  (parseDirectory opts (sectors.take x.size.toNat)).mapError .format

/-- The entries in all extents, one extent behind the other. -/
def allEntriesIn (image : Image) (framing : Framing) (opts : ListOptions) :
    List Extent → Except Error (List Entry)
  | [] => .ok []
  | x :: rest => do
    let entries ← image.entriesIn framing opts x
    let later ← allEntriesIn image framing opts rest
    return entries ++ later

variable {image : Image} {framing : Framing} {opts : ListOptions} {first : Extent}
variable {extents later : List Extent} {entries : List Entry}

/-- The entries of several extents are those of the first and then those of the others, if all can be
read. -/
theorem allEntriesIn_cons_eq_ok :
    image.allEntriesIn framing opts (first :: later) = .ok entries ↔
      ∃ here others, image.entriesIn framing opts first = .ok here ∧
        image.allEntriesIn framing opts later = .ok others ∧ here ++ others = entries := by
  simp only [allEntriesIn, except_bind_eq_ok_iff, exists_and_left]
  exact ⟨fun ⟨here, hhere, others, hothers, h⟩ => ⟨here, hhere, others, hothers, Except.ok.inj h⟩,
    fun ⟨here, hhere, others, hothers, h⟩ => ⟨here, hhere, others, hothers, congrArg Except.ok h⟩⟩

/-- There is nothing in extents if each can be read and there is nothing in it, and only then. -/
theorem allEntriesIn_eq_nil_iff :
    image.allEntriesIn framing opts extents = .ok [] ↔
      ∀ x ∈ extents, image.entriesIn framing opts x = .ok [] := by
  induction extents with
  | nil => exact ⟨fun _ => List.forall_mem_nil _, fun _ => rfl⟩
  | cons x rest ih =>
    rw [allEntriesIn_cons_eq_ok, List.forall_mem_cons, ← ih]
    constructor
    · rintro ⟨here, others, hhere, hothers, hnil⟩
      obtain ⟨rfl, rfl⟩ := List.append_eq_nil_iff.mp hnil
      exact ⟨hhere, hothers⟩
    · rintro ⟨hhere, hothers⟩
      exact ⟨[], [], hhere, hothers, rfl⟩

/-- The first extent has all there is if it cannot be read, or there is nothing in the others. -/
theorem entriesIn_eq_allEntriesIn_iff :
    image.entriesIn framing opts first = image.allEntriesIn framing opts (first :: later) ↔
      (∃ failure, image.entriesIn framing opts first = .error failure) ∨
        ∀ x ∈ later, image.entriesIn framing opts x = .ok [] := by
  cases hfirst : image.entriesIn framing opts first with
  | error failure =>
    rw [allEntriesIn, hfirst]
    exact ⟨fun _ => .inl ⟨failure, rfl⟩, fun _ => rfl⟩
  | ok here =>
    rw [eq_comm, allEntriesIn_cons_eq_ok, hfirst, ← allEntriesIn_eq_nil_iff]
    constructor
    · rintro ⟨here', others, hhere, hothers, hall⟩
      cases hhere
      rw [List.append_right_eq_self] at hall
      exact .inr (hall ▸ hothers)
    · rintro (⟨failure, hfailure⟩ | hnothing)
      · cases hfailure
      · exact ⟨here, [], rfl, hnothing, List.append_nil here⟩

end Image

/-! ## What a listing reads of it -/

/-- Directories that have been listed have an extent, as every entry is made of a record. -/
theorem exists_extents_of_parseDirectory {opts : ListOptions} {bytes : Bytes} {siblings : List Entry}
    {e : Entry} (hparsed : parseDirectory opts bytes = .ok siblings) (he : e ∈ siblings) :
    ∃ first later, e.extents = first :: later := by
  obtain ⟨chain, hchain, hentry⟩ := exists_chain_of_parseDirectory hparsed he
  obtain ⟨first, later, hcons⟩ := List.exists_cons_of_ne_nil hchain.nonempty
  rw [hentry.extents, hcons]
  exact ⟨_, _, rfl⟩

namespace Tree

variable {directory : Entry} {first : Extent} {later : List Extent}

/-- A directory is read from its first extent, however many it has. -/
theorem directoryExtent_eq_ok (hkind : directory.isDirectory = true)
    (hextents : directory.extents = first :: later) : directory.directoryExtent = .ok first := by
  rw [Entry.directoryExtent, if_pos hkind, hextents]
  rfl

/-- A directory is listed from its first extent, on any device, and its others are not read. -/
theorem list_eq_readDirectory {δ : Type} [BlockDevice δ] (opts : ListOptions)
    (hkind : directory.isDirectory = true) (hextents : directory.extents = first :: later) :
    (list opts directory : SourceM δ (List Entry)) =
      readDirectory opts first.lsn first.size := by
  rw [list, directoryExtent_eq_ok hkind hextents]
  rfl

/-- What there is to be listed is in the first extent, whatever the others hold. -/
theorem listing_eq_entriesIn (image : Image) (framing : Framing) (opts : ListOptions)
    (hkind : directory.isDirectory = true) (hextents : directory.extents = first :: later) :
    image.listing framing opts directory = image.entriesIn framing opts first := by
  rw [Image.listing, Image.directoryBytes, directoryExtent_eq_ok hkind hextents, Image.entriesIn]
  simp only [bind_assoc, pure_bind]
  rfl

/-- **A listing covers the first extent of a directory only.** A directory that was found in a listing
has at least one extent. Whatever the device and the image, what it is listed as is told by the first
one: entries of the others are left out without a failure. So the listing is all there is exactly if
it fails, or there is nothing in the other extents. -/
theorem list_of_parsed {parentOpts : ListOptions} {bytes : Bytes} {siblings : List Entry}
    (hparsed : parseDirectory parentOpts bytes = .ok siblings) (hfound : directory ∈ siblings)
    (hkind : directory.isDirectory = true) (opts : ListOptions) :
    ∃ first later, directory.extents = first :: later ∧
      (∀ {δ : Type} [BlockDevice δ], (list opts directory : SourceM δ (List Entry)) =
        readDirectory opts first.lsn first.size) ∧
      ∀ {δ : Type} [BlockDevice δ] {image : Image} {framing : Framing} (s : SectorSource δ),
        s.Serves image framing →
        let result := ((list opts directory).run.run s).1
        result = image.entriesIn framing opts first ∧
        (result = image.allEntriesIn framing opts directory.extents ↔
          (∃ failure, result = .error failure) ∨
            ∀ x ∈ later, image.entriesIn framing opts x = .ok []) := by
  obtain ⟨first, later, hextents⟩ := exists_extents_of_parseDirectory hparsed hfound
  refine ⟨first, later, hextents, list_eq_readDirectory opts hkind hextents, ?_⟩
  intro δ _ image framing s hs result
  have hresult : result = image.entriesIn framing opts first := by
    obtain ⟨s', hrun, -⟩ := yields_list opts directory s hs
    rw [← listing_eq_entriesIn image framing opts hkind hextents]
    exact congrArg Prod.fst hrun
  rw [hresult, hextents]
  exact ⟨rfl, Image.entriesIn_eq_allEntriesIn_iff⟩

/-! ### A directory in two extents -/

/-- The bytes of one sector that starts with these records. -/
def sectorOf (records : List DirectoryRecord) : Bytes :=
  Bytes.fit sectorSize 0 (records.flatMap fun r => UInt8.ofNat r.encodedLength :: r.body)

/-- The records of a directory in two extents, which are the sectors behind that of its parent. -/
def partedDirectory : List DirectoryRecord :=
  [.ofExtent [0x44] 1 34 ⟨0x82⟩, .ofExtent [0x44] 2 34 .directory]

/-- There is a file in each of the two extents. -/
def partedFile (name : UInt8) : DirectoryRecord := .ofExtent [name] 3 0 ⟨0⟩

def partedImage : Image :=
  .inSectors (sectorOf partedDirectory ++ sectorOf [partedFile 0x41] ++ sectorOf [partedFile 0x42])

def partedEntry : Entry :=
  { Entry.ofRecord {} (.ofExtent [0x44] 1 34 .directory) with
    size := 68
    extents := [⟨1, 34⟩, ⟨2, 34⟩] }

theorem parseDirectory_partedDirectory :
    parseDirectory {} (sectorOf partedDirectory) = .ok [partedEntry] :=
  eq_ok_of_toOption (by decide +kernel)

/-- What there is in the two extents: one file in each of them. -/
theorem entriesIn_partedImage :
    partedImage.entriesIn .standard {} ⟨1, 34⟩ = .ok [.ofRecord {} (partedFile 0x41)] ∧
      partedImage.entriesIn .standard {} ⟨2, 34⟩ = .ok [.ofRecord {} (partedFile 0x42)] :=
  ⟨eq_ok_of_toOption (by decide +kernel), eq_ok_of_toOption (by decide +kernel)⟩

def partedSource : SectorSource MemoryDevice := .ofDevice (.ofBytes 2048 partedImage.bytes)

theorem serves_partedSource : partedSource.Serves partedImage .standard :=
  SectorSource.serves_ofDevice (MemoryDevice.heldBy_ofBytes rfl (by decide +kernel)
    (by decide +kernel)) .standard

/-- The listing does not have what there is in the second extent of the directory. -/
theorem list_of_parsed_partedDirectory :
    let result := ((list {} partedEntry).run.run partedSource).1
    result = .ok [.ofRecord {} (partedFile 0x41)] ∧
      result ≠ partedImage.allEntriesIn .standard {} partedEntry.extents := by
  intro result
  obtain ⟨hhere, hthere⟩ := entriesIn_partedImage
  obtain ⟨first, later, hextents, -, hread⟩ := list_of_parsed parseDirectory_partedDirectory
    List.mem_cons_self rfl {}
  obtain ⟨rfl, rfl⟩ := List.cons.inj hextents
  obtain ⟨hfirst, hall⟩ := hread partedSource serves_partedSource
  refine ⟨hfirst.trans hhere, fun h => ?_⟩
  rcases hall.mp h with ⟨failure, hfailure⟩ | hnothing
  · cases hfailure.symm.trans (hfirst.trans hhere)
  · cases hthere.symm.trans (hnothing ⟨2, 34⟩ List.mem_cons_self)

/-- There are two files in the directory, of which one is listed: the other is in its second extent. -/
theorem list_leaves_out_partedDirectory :
    parseDirectory {} (sectorOf partedDirectory) = .ok [partedEntry] ∧
      partedEntry.isDirectory = true ∧ partedSource.Serves partedImage .standard ∧
      partedImage.allEntriesIn .standard {} partedEntry.extents =
        .ok [.ofRecord {} (partedFile 0x41), .ofRecord {} (partedFile 0x42)] ∧
      ((list {} partedEntry).run.run partedSource).1 = .ok [.ofRecord {} (partedFile 0x41)] := by
  obtain ⟨hhere, hthere⟩ := entriesIn_partedImage
  refine ⟨parseDirectory_partedDirectory, rfl, serves_partedSource, ?_, ?_⟩
  · exact Image.allEntriesIn_cons_eq_ok.mpr
      ⟨_, _, hhere, Image.allEntriesIn_cons_eq_ok.mpr ⟨_, [], hthere, rfl, rfl⟩, rfl⟩
  · obtain ⟨s', hrun, -⟩ := yields_list {} partedEntry partedSource serves_partedSource
    rw [hrun, listing_eq_entriesIn partedImage .standard {} rfl rfl, hhere]

end Tree

end Ecma119
