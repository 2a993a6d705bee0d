import Ecma119.Proofs.File.AtOnce
import Ecma119.Proofs.Filesystem.History
import Ecma119.Proofs.PathTable
import Mathlib.Data.List.Forall2

/-!
# The path table of an image

The path table is read twice, once in either byte order, unless only one is recorded.
`Image.storedTable` tells what there is to be read of one of them, and `pathTable_crossChecked` what
comes of the two: the entries if both have the same, a failure if both can be read and differ, and
the table itself if both were written from it.
-/

namespace Ecma119

/-! ## One table -/

/-- The entries of the path table that is recorded at a location in one byte order. -/
def Image.storedTable (image : Image) (framing : Framing) (order : ByteOrder) (lsn size : UInt32) :
    Except Error (List PathTableEntry) := do
  let sectors ← image.readSectors framing lsn (sectorsForBytes size.toNat)
  (readPathTable order (sectors.take size.toNat)).mapError .format

section Stored

variable {image : Image} {framing : Framing} {order : ByteOrder} {lsn size : UInt32}
variable {entries : List PathTableEntry}

/-- A table is there if its sectors can be read and as many bytes as it has make entries. -/
theorem Image.storedTable_eq_ok :
    image.storedTable framing order lsn size = .ok entries ↔
      ∃ sectors, image.readSectors framing lsn (sectorsForBytes size.toNat) = .ok sectors ∧
        readPathTable order (sectors.take size.toNat) = .ok entries := by
  simp only [storedTable, except_bind_eq_ok_iff, mapError_eq_ok]

/-- The bytes of a table that lie in readable sectors are found there, and the table is read from them.
-/
theorem Image.storedTable_of_liesIn {t : PathTable} (hnamed : ∀ e ∈ t.toList, e.IsNamed)
    (hne : t.toList ≠ []) (hframe : sectorSize ≤ framing.frameSize.toNat)
    (hplace : (Extent.mk lsn size).LiesIn image framing)
    (hbytes : (Extent.mk lsn size).bytesIn image framing = t.encode order) :
    image.storedTable framing order lsn size = .ok t.toList := by
  have hsize : 0 < size.toNat := by
    have hlength := Extent.length_bytesIn hplace
    rw [hbytes, PathTable.length_encode] at hlength
    obtain ⟨first, rest, hlist⟩ := List.exists_cons_of_ne_nil hne
    have hfirst : PathTableEntry.size first = padEven (8 + first.name.length) := rfl
    rw [PathTable.size, hlist, List.foldr_cons, hfirst] at hlength
    unfold padEven at hlength
    dsimp only at hlength
    omega
  obtain ⟨sectors, hsectors, htake⟩ := Extent.readSectors_eq hplace hframe hsize
  refine storedTable_eq_ok.mpr ⟨sectors, hsectors, ?_⟩
  rw [hbytes] at htake
  exact (congrArg (readPathTable order) htake).trans (PathTable.readPathTable_toList order hnamed)

variable {δ : Type} [BlockDevice δ]

/-- A source that serves the image reads its tables, in the byte order that each is stored in. -/
theorem yields_readStoredTable :
    SectorSource.Yields (δ := δ) image framing (Filesystem.readStoredTable order lsn size)
      (image.storedTable framing order lsn size) :=
  (SectorSource.yields_readSectors _ _).bind fun _ => .liftM _

end Stored

/-! ## Both tables -/

namespace Filesystem

/-- Two lists of one length are the same if no two entries at one place differ, which is what is searched
for. -/
theorem eq_iff_zip {typeL typeM : List PathTableEntry} :
    typeL = typeM ↔ typeL.length = typeM.length ∧ ∀ p ∈ typeL.zip typeM, p.1 = p.2 := by
  rw [← List.forall₂_eq_eq_eq, List.forall₂_iff_zip]
  simp only [Prod.forall]

/-- Tables agree if they have the same entries, and that they differ is said otherwise. -/
theorem agree_cases (typeL typeM : List PathTableEntry) :
    typeL = typeM ∧ agree typeL typeM = .ok () ∨
      typeL ≠ typeM ∧ ∃ le be, agree typeL typeM = .error (.endianMismatch le be) := by
  rw [agree]
  split
  · next hlength =>
    exact .inr ⟨fun h => hlength (eq_iff_zip.mp h).1, _, _, rfl⟩
  · next hlength =>
    have hsame : typeL.length = typeM.length := Decidable.not_not.mp hlength
    split
    · next l m hfind =>
      have hmem := List.mem_of_find?_eq_some hfind
      have hdiffer : l ≠ m := by simpa using List.find?_some hfind
      exact .inr ⟨fun h => hdiffer ((eq_iff_zip.mp h).2 _ hmem), _, _, rfl⟩
    · next hfind =>
      refine .inl ⟨eq_iff_zip.mpr ⟨hsame, fun p hp => ?_⟩, rfl⟩
      simpa using List.find?_eq_none.mp hfind p hp

end Filesystem

/-- The path table that a descriptor tells of, as far as it can be read and both tables agree. -/
def Image.pathTable (image : Image) (framing : Framing) (d : VolumeDescriptor) :
    Except Error PathTable := do
  let entries ← image.storedTable framing .little d.typeLPathTable d.pathTableSize
  if d.typeMPathTable ≠ 0 then
    let others ← image.storedTable framing .big d.typeMPathTable d.pathTableSize
    (Filesystem.agree entries others).mapError .format
  return .ofList entries

section Both

variable {image : Image} {framing : Framing} {d : VolumeDescriptor}

/-- Without a second table the first one is all there is, and it is not compared with anything. -/
theorem Image.pathTable_of_single (hsingle : d.typeMPathTable = 0) :
    image.pathTable framing d =
      image.storedTable framing .little d.typeLPathTable d.pathTableSize >>= fun entries =>
        .ok (.ofList entries) := by
  rw [pathTable, hsingle]
  rfl

/-- A second table is read and compared, entry by entry, and the first one is given. -/
theorem Image.pathTable_of_both (hboth : d.typeMPathTable ≠ 0) :
    image.pathTable framing d =
      image.storedTable framing .little d.typeLPathTable d.pathTableSize >>= fun entries =>
        image.storedTable framing .big d.typeMPathTable d.pathTableSize >>= fun others =>
          (Filesystem.agree entries others).mapError .format >>= fun _ =>
            .ok (.ofList entries) := by
  rw [pathTable]
  simp only [if_pos hboth]
  rfl

/-- There is a path table if one can be read, and the other says the same or is not recorded. -/
theorem Image.pathTable_eq_ok {t : PathTable} :
    image.pathTable framing d = .ok t ↔
      image.storedTable framing .little d.typeLPathTable d.pathTableSize = .ok t.toList ∧
        (d.typeMPathTable = 0 ∨
          image.storedTable framing .big d.typeMPathTable d.pathTableSize = .ok t.toList) := by
  by_cases hboth : d.typeMPathTable = 0
  · rw [pathTable_of_single hboth, except_bind_eq_ok_iff]
    constructor
    · rintro ⟨entries, hL, hdone⟩
      cases hdone
      exact ⟨hL, .inl hboth⟩
    · rintro ⟨hL, -⟩
      exact ⟨_, hL, rfl⟩
  · rw [pathTable_of_both hboth]
    constructor
    · intro h
      obtain ⟨entries, hL, h⟩ := except_bind_eq_ok h
      obtain ⟨others, hM, h⟩ := except_bind_eq_ok h
      obtain ⟨agreed, hagree, hdone⟩ := except_bind_eq_ok h
      cases hdone
      rcases Filesystem.agree_cases entries others with ⟨rfl, -⟩ | ⟨-, le, be, hdiffer⟩
      · exact ⟨hL, .inr hM⟩
      · rw [hdiffer] at hagree
        cases hagree
    · rintro ⟨hL, hM⟩
      have hM := hM.resolve_left hboth
      rcases Filesystem.agree_cases t.toList t.toList with ⟨-, hagree⟩ | ⟨hdiffer, -⟩
      · rw [hL, hM]
        show ((Filesystem.agree t.toList t.toList).mapError Error.format >>= fun _ => _) = _
        rw [hagree]
        rfl
      · exact absurd rfl hdiffer

/-- If both tables can be read and differ, that is what fails, with `endianMismatch`. -/
theorem Image.pathTable_of_ne {typeL typeM : List PathTableEntry}
    (hboth : d.typeMPathTable ≠ 0)
    (hL : image.storedTable framing .little d.typeLPathTable d.pathTableSize = .ok typeL)
    (hM : image.storedTable framing .big d.typeMPathTable d.pathTableSize = .ok typeM)
    (hne : typeL ≠ typeM) :
    ∃ le be, image.pathTable framing d = .error (.format (.endianMismatch le be)) := by
  rcases Filesystem.agree_cases typeL typeM with ⟨hsame, -⟩ | ⟨-, le, be, hagree⟩
  · exact absurd hsame hne
  · refine ⟨le, be, ?_⟩
    rw [pathTable_of_both hboth, hL, hM]
    show ((Filesystem.agree typeL typeM).mapError Error.format >>= fun _ => _) = _
    rw [hagree]
    rfl

end Both

namespace Filesystem

variable {δ : Type} [BlockDevice δ] {image : Image} {framing : Framing} {fs fs' : Filesystem δ}

/-- A source that serves the image reads the path table that the active descriptor points to. -/
theorem yields_tableOf (volume : Volume) :
    SectorSource.Yields (δ := δ) image framing (tableOf volume)
      (image.pathTable framing volume.active) := by
  refine yields_readStoredTable.bind fun entries => ?_
  dsimp only
  split
  · refine yields_readStoredTable.bind fun others => ?_
    exact (SectorSource.Yields.liftM _).bind fun _ => .pure _
  · exact .pure _

/-- What `pathTable` gives is what the image has of it for the active descriptor of the volume. -/
theorem run_pathTable {volume : Volume} {opts : ListOptions} (hs : fs.source.Serves image framing)
    (hready : ready.run.run fs = (.ok (volume, opts), fs')) :
    (pathTable.run.run fs).1 = image.pathTable framing volume.active := by
  obtain ⟨source, hrun, -⟩ := yields_tableOf volume _ (serves_ready hs hready)
  rw [pathTable_eq, run_bind_ok hready, run_fromSource hrun]

/-- **The path table is cross-checked.** On an image it is a list of entries exactly if the bytes at
the location of type L make these entries, and those at the location of type M make the same, unless
that is 0. If both make entries and these differ, the failure says so. A table that was written in
both byte orders to whole sectors, in frames that are as long as a sector or longer, is given back.
-/
theorem pathTable_crossChecked {volume : Volume} {opts : ListOptions}
    (hs : fs.source.Serves image framing)
    (hready : ready.run.run fs = (.ok (volume, opts), fs')) :
    let d := volume.active
    let size := d.pathTableSize
    let reads (order : ByteOrder) (lsn : UInt32) (entries : List PathTableEntry) : Prop :=
      ∃ sectors, image.readSectors framing lsn (sectorsForBytes size.toNat) = .ok sectors ∧
        readPathTable order (sectors.take size.toNat) = .ok entries
    let holds (order : ByteOrder) (lsn : UInt32) (t : PathTable) : Prop :=
      (Extent.mk lsn size).LiesIn image framing ∧
        (Extent.mk lsn size).bytesIn image framing = t.encode order
    let outcome := (pathTable.run.run fs).1
    (∀ t, outcome = .ok t ↔ reads .little d.typeLPathTable t.toList ∧
      (d.typeMPathTable = 0 ∨ reads .big d.typeMPathTable t.toList)) ∧
    (∀ typeL typeM, d.typeMPathTable ≠ 0 → reads .little d.typeLPathTable typeL →
      reads .big d.typeMPathTable typeM → typeL ≠ typeM →
        ∃ le be, outcome = .error (.format (.endianMismatch le be))) ∧
    (∀ t : PathTable, t.toList ≠ [] → (∀ e ∈ t.toList, e.name ≠ [] ∧ e.name.length ≤ 255) →
      2048 ≤ framing.frameSize.toNat → holds .little d.typeLPathTable t →
        (d.typeMPathTable = 0 ∨ holds .big d.typeMPathTable t) → outcome = .ok t) := by
  intro d size reads holds outcome
  have houtcome : outcome = image.pathTable framing d := run_pathTable hs hready
  have hreads (order : ByteOrder) (lsn : UInt32) (entries : List PathTableEntry) :
      reads order lsn entries ↔ image.storedTable framing order lsn size = .ok entries :=
    Image.storedTable_eq_ok.symm
  rw [houtcome]
  refine ⟨fun t => ?_, fun typeL typeM hboth hL hM hne => ?_, fun t hne hnamed hframe hL hM => ?_⟩
  · rw [hreads, hreads]
    exact Image.pathTable_eq_ok
  · exact Image.pathTable_of_ne hboth ((hreads _ _ _).mp hL) ((hreads _ _ _).mp hM) hne
  · have hstored (order : ByteOrder) (lsn : UInt32) (h : holds order lsn t) :
        image.storedTable framing order lsn size = .ok t.toList :=
      Image.storedTable_of_liesIn hnamed hne hframe h.1 h.2
    exact Image.pathTable_eq_ok.mpr ⟨hstored _ _ hL, hM.imp_right (hstored _ _)⟩

/-! ### A small table -/

/-- The path table of a volume with nothing but a root directory. -/
def rootTable : PathTable := .ofList [⟨[0], 0, 18, 1⟩]

/-- An image of two sectors, each with that table in one byte order. -/
def tableImage : Image :=
  .inSectors (rootTable.encode .little ++ Bytes.zeros 2038 ++ (rootTable.encode .big ++ Bytes.zeros 2038))

/-- The table is given back, as both of its byte orders tell the same entry. -/
theorem pathTable_crossChecked_rootTable :
    let d : VolumeDescriptor :=
      { VolumeDescriptor.blank .primary (.ofExtent [0x00] 18 2048 .directory) with
        pathTableSize := 10, typeLPathTable := 0, typeMPathTable := 1 }
    let fs : Filesystem MemoryDevice :=
      { source := .ofDevice (.ofBytes 2048 tableImage.bytes), options := {},
        volume := some ⟨d, none, false⟩ }
    (pathTable.run.run fs).1 = .ok rootTable := by
  intro d fs
  have hs : fs.source.Serves tableImage .standard :=
    SectorSource.serves_ofDevice
      (MemoryDevice.heldBy_ofBytes rfl (by decide +kernel) (by decide +kernel)) .standard
  have hready : ready.run.run fs =
      (.ok (⟨d, none, false⟩, .forVolume ⟨d, none, false⟩ {}), fs) := rfl
  obtain ⟨-, -, hstored⟩ := pathTable_crossChecked hs hready
  refine hstored rootTable (by decide) (by decide) (by decide) ⟨?_, ?_⟩ (.inr ⟨?_, ?_⟩) <;>
    decide +kernel

end Filesystem

end Ecma119
