import Ecma119.Proofs.Directory.Dots
import Ecma119.Proofs.Tree.BreadthFirst

/-!
# The way back

The search for the owner of a sector and the look-up of a path go the same way in opposite
directions. The search lists directories without the records of the directory itself and of its
parent, and the look-up perhaps with them; it cuts the path that the search put together, and takes
the first entry with a name. `Navigable` says when none of this makes a difference: then the path of
a trail is followed to where the trail leads, and `lookup_ownerWithPath` is what that comes to.
-/

namespace Ecma119

/-! ## Names in a directory -/

/-- Entries whose names can be put into paths and tell them apart. -/
structure WellNamed (entries : List Entry) : Prop where
  nonempty : ∀ e ∈ entries, e.name ≠ ""
  noSlash : ∀ e ∈ entries, '/' ∉ e.name.toList
  distinct : entries.Pairwise fun a b => Name.sameIgnoringCase a.name b.name = false

/-- An entry is found by its name, as no other entry has it in any case. -/
theorem WellNamed.find?_eq_some {entries : List Entry} (h : WellNamed entries) {e : Entry}
    (he : e ∈ entries) :
    entries.find? (fun x => Name.sameIgnoringCase (x.nameOf .display) e.name) = some e := by
  obtain ⟨before, after, rfl⟩ := List.append_of_mem he
  obtain ⟨-, -, hbefore⟩ := List.pairwise_append.mp h.distinct
  refine List.find?_eq_some_iff_append.mpr ⟨?_, before, after, rfl, fun x hx => ?_⟩
  · simp [Entry.nameOf, Name.sameIgnoringCase]
  · rw [Entry.nameOf, hbefore x hx e List.mem_cons_self]
    rfl

namespace Tree

/-! ## Trails of an image -/

variable {image : Image} {framing : Framing} {opts : ListOptions} {root e : Entry}
variable {trail : List Entry}

/-- The trail leads down from `root` through directories of the image. -/
def LeadsIn (image : Image) (framing : Framing) (opts : ListOptions) :
    (root : Entry) → (trail : List Entry) → Entry → Prop :=
  Leads fun directory entries =>
    image.listing framing { opts with includeDots := false } directory = .ok entries

/-- In every directory below `root`, listed with these options, the names are fit for paths, and the
records of the directory itself and of its parent are not flagged as continued. -/
structure Navigable (image : Image) (framing : Framing) (opts : ListOptions) (root : Entry) :
    Prop where
  named : ∀ trail directory, LeadsIn image framing opts root trail directory →
    ∀ entries, image.listing framing opts directory = .ok entries → WellNamed entries
  dotsEnd : ∀ trail directory, LeadsIn image framing opts root trail directory →
    ∀ extent, image.directoryBytes framing directory = .ok extent →
      DotsEnd (recordsOf opts.policy extent)

/-- What a search finds in a directory is found among well-named entries by a look-up. -/
theorem Navigable.exists_listing (h : Navigable image framing opts root) {directory : Entry}
    {entries : List Entry} (htrail : LeadsIn image framing opts root trail directory)
    (hlisted : image.listing framing { opts with includeDots := false } directory = .ok entries) :
    ∃ all, image.listing framing opts directory = .ok all ∧ WellNamed all ∧ entries ⊆ all := by
  obtain ⟨extent, hextent, hentries⟩ := Image.listing_eq_ok.mp hlisted
  obtain ⟨all, hall, hsub⟩ :=
    exists_assemble_of_hidden (h.dotsEnd trail directory htrail extent hextent) hentries
  have hlisting := Image.listing_eq_ok.mpr ⟨extent, hextent, hall⟩
  exact ⟨all, hlisting, h.named trail directory htrail all hlisting, hsub.subset⟩

/-- The names on a trail are fit for a path: none is empty, and there is no slash in any. -/
theorem Navigable.names (h : Navigable image framing opts root)
    (htrail : LeadsIn image framing opts root trail e) :
    ∀ x ∈ trail, x.name ≠ "" ∧ '/' ∉ x.name.toList := by
  induction htrail with
  | start => exact fun x hx => (nomatch hx)
  | step hbefore hlisted he ih =>
    obtain ⟨all, -, hnamed, hsub⟩ := h.exists_listing hbefore hlisted
    intro x hx
    rcases List.mem_append.mp hx with hx | hx
    · exact ih x hx
    · obtain rfl := List.mem_singleton.mp hx
      exact ⟨hnamed.nonempty x (hsub he), hnamed.noSlash x (hsub he)⟩

variable {δ : Type} [BlockDevice δ]

/-- Components are followed in two parts, the second from where the first has led. -/
theorem follow_append (names : NameKind) (start : Entry) (first second : List String) :
    (follow opts names start (first ++ second) : SourceM δ Entry) =
      follow opts names start first >>= fun middle => follow opts names middle second := by
  induction first generalizing start with
  | nil => rw [List.nil_append, follow, pure_bind]
  | cons component rest ih =>
    rw [List.cons_append, follow, follow, bind_assoc]
    congr 1
    funext entries
    split
    · exact ih _
    · rfl

/-- A trail is followed to its end by the names of its entries, by induction along the trail. -/
theorem yields_follow (h : Navigable image framing opts root)
    (htrail : LeadsIn image framing opts root trail e) :
    SectorSource.Yields (δ := δ) image framing
      (follow opts .display root (trail.map Entry.name)) (.ok e) := by
  induction htrail with
  | start => exact .pure root
  | @step trail entries directory e hbefore hlisted he ih =>
    obtain ⟨all, hall, hnamed, hsub⟩ := h.exists_listing hbefore hlisted
    have hlist : SectorSource.Yields (δ := δ) image framing (list opts directory) (.ok all) := by
      rw [← hall]
      exact yields_list opts directory
    rw [List.map_append, follow_append]
    refine ih.bind_ok ?_
    rw [List.map_singleton, follow]
    refine hlist.bind_ok ?_
    rw [hnamed.find?_eq_some (hsub he)]
    exact .pure e

/-! ## There and back -/

/-- What a search finds on an image is the root directory, or has a trail in the image. -/
theorem exists_trail_of_ownerWithPath {volume : Volume} {lsn : UInt32} {path : String}
    {s s' : SectorSource δ} (hs : s.Serves image framing)
    (hrun : (ownerWithPath volume opts lsn).run.run s = (.ok (path, e), s')) :
    s'.Serves image framing ∧
      ((path = "/" ∧ e = volume.rootEntry opts) ∨
        ∃ trail, path = pathOf trail ∧
          LeadsIn image framing opts (volume.rootEntry opts) trail e) := by
  rw [ownerWithPath_eq] at hrun
  split at hrun
  · cases hrun
    exact ⟨hs, .inl ⟨rfl, rfl⟩⟩
  · obtain ⟨visits, result, s₁, hsearch, heach, hdone, hends⟩ :=
      run_searchOwner { opts with includeDots := false }
        (explored_start lsn (volume.rootEntry opts)) s
    rw [hsearch] at hrun
    cases hrun
    obtain ⟨hs₁, houtcome⟩ := outcome_eq_listing hs heach
    obtain ⟨trail, hpath, htrail⟩ := hends.exists_trail hdone
    refine ⟨hs₁, .inr ⟨trail ++ [e], hpath, htrail.mono ?_⟩⟩
    rintro directory entries ⟨v, hv, rfl, hlisted⟩
    rw [← houtcome v hv, hlisted]

/-- **What the search finds is found again by its path.** On an image in which the names in a
directory are fit for paths and tell its entries apart, the entry that has a sector is the one that
is looked up at the path that the search gave: on the source as the search leaves it, which still
serves the image, and on any other that does. -/
theorem lookup_ownerWithPath {volume : Volume} {lsn : UInt32} {path : String}
    {s s' : SectorSource δ} (hs : s.Serves image framing)
    (hnavigable : Navigable image framing opts (volume.rootEntry opts))
    (hrun : (ownerWithPath volume opts lsn).run.run s = (.ok (path, e), s'))
    (hlength : path.utf8ByteSize ≤ 255) :
    s'.Serves image framing ∧ ∀ t : SectorSource δ, t.Serves image framing →
      ((lookup volume opts .display path).run.run t).1 = .ok e := by
  obtain ⟨hs', hfound⟩ := exists_trail_of_ownerWithPath hs hrun
  refine ⟨hs', fun t ht => ?_⟩
  have hlookup : (lookup volume opts .display path : SourceM δ Entry) =
      follow opts .display (volume.rootEntry opts) (pathComponents path) := by
    have hshort : ¬ maxLookupLength < path.utf8ByteSize := Nat.not_lt.mpr hlength
    rw [lookup, if_neg hshort]
  rw [hlookup]
  rcases hfound with ⟨rfl, rfl⟩ | ⟨trail, rfl, htrail⟩
  · rfl
  · rw [pathComponents_pathOf (hnavigable.names htrail)]
    obtain ⟨t', hrun, -⟩ := yields_follow hnavigable htrail t ht
    rw [hrun]

/-! ### A small image -/

def smallRoot : DirectoryRecord := .ofExtent [0x00] 0 68 .directory

def smallFile : DirectoryRecord := .ofExtent [0x41] 1 5 ⟨0⟩

/-- An image of one sector, where the root directory holds its own record and that of the file. -/
def smallImage : Image :=
  .inSectors (([smallRoot, smallFile].flatMap fun r => UInt8.ofNat r.encodedLength :: r.body) ++
    Bytes.zeros 1980)

theorem heldBy_smallImage : smallImage.HeldBy (MemoryDevice.ofBytes 2048 smallImage.bytes) :=
  MemoryDevice.heldBy_ofBytes rfl (by decide +kernel) (by decide +kernel)

/-- There is no way down but to the file. The induction is along the trail. -/
theorem leadsIn_smallImage {directory : Entry}
    (h : LeadsIn smallImage .standard { includeDots := true }
      { Entry.ofRecord {} smallRoot with name := "/" } trail directory) :
    directory = { Entry.ofRecord {} smallRoot with name := "/" } ∨
      directory = .ofRecord {} smallFile := by
  induction h with
  | start => exact .inl rfl
  | step _ hlisted he ih =>
    rcases ih with rfl | rfl
    · have hroot : smallImage.listing .standard {}
          { Entry.ofRecord {} smallRoot with name := "/" } = .ok [.ofRecord {} smallFile] :=
        eq_ok_of_toOption (by decide +kernel)
      cases hroot.symm.trans hlisted
      exact .inr (List.mem_singleton.mp he)
    · cases hlisted

/-- The file's sector is the first one behind the image, and its path is looked up in a directory
that lists its own record too. -/
theorem lookup_ownerWithPath_smallImage :
    let opts : ListOptions := { includeDots := true }
    let volume : Volume := ⟨.blank .primary smallRoot, none, false⟩
    let s : SectorSource MemoryDevice := .ofDevice (.ofBytes 2048 smallImage.bytes)
    ∃ s', (ownerWithPath volume opts 1).run.run s = (.ok ("/a", .ofRecord opts smallFile), s') ∧
      ((lookup volume opts .display "/a").run.run s').1 = .ok (.ofRecord opts smallFile) := by
  intro opts volume s
  have hs : s.Serves smallImage .standard :=
    SectorSource.serves_ofDevice heldBy_smallImage .standard
  have hroot : smallImage.listing .standard {} (volume.rootEntry opts) =
      .ok [.ofRecord opts smallFile] := eq_ok_of_toOption (by decide +kernel)
  have hnavigable : Navigable smallImage .standard opts (volume.rootEntry opts) := by
    constructor
    · intro trail directory htrail entries hlisted
      rcases leadsIn_smallImage htrail with rfl | rfl
      · have hall : smallImage.listing .standard opts (volume.rootEntry opts) =
            .ok [.ofRecord opts smallRoot, .ofRecord opts smallFile] :=
          eq_ok_of_toOption (by decide +kernel)
        cases hall.symm.trans hlisted
        exact ⟨by decide +kernel, by decide +kernel, by decide +kernel⟩
      · cases hlisted
    · intro trail directory htrail extent hextent
      rcases leadsIn_smallImage htrail with rfl | rfl
      · have hbytes : smallImage.directoryBytes .standard (volume.rootEntry opts) =
            .ok (smallImage.bytes.take 68) := eq_ok_of_toOption (by decide +kernel)
        cases hbytes.symm.trans hextent
        decide +kernel
      · cases hextent
  obtain ⟨s', hlist, -⟩ := yields_list {} (volume.rootEntry opts) s hs
  rw [hroot] at hlist
  have hvisit : Frontier.visit 1 "" ⟨[(volume.rootEntry opts).lsn], []⟩
      [.ofRecord opts smallFile] = .inl ("/a", .ofRecord opts smallFile) := by
    have hpath : "" ++ "/" ++ (Entry.ofRecord opts smallFile).name = "/a" := by decide +kernel
    rw [Frontier.visit, if_pos (by decide +kernel), hpath]
  have hfound : (ownerWithPath volume opts 1).run.run s =
      (.ok ("/a", .ofRecord opts smallFile), s') := by
    rw [ownerWithPath_eq, if_neg (by decide +kernel), searchOwner]
    dsimp only
    rw [run_bind_ok hlist]
    split
    · next found hinl =>
      cases hinl.symm.trans hvisit
      rfl
    · next hinr => cases hinr.symm.trans hvisit
  obtain ⟨hs', hlookup⟩ := lookup_ownerWithPath hs hnavigable hfound (by decide +kernel)
  exact ⟨s', hfound, hlookup s' hs'⟩

end Tree

end Ecma119
