import Ecma119.Proofs.Filesystem.History
import Ecma119.Proofs.Tree.Descent
import Ecma119.Proofs.Tree.WayBack

/-!
# Look-ups and listings

Looking up a path and listing the directory at a path go down the same way, so what one of them
gives is known from the other. `GoesWith` says how, component by component and with the failures in
their order, and `lookup_goesWith_list` what it means for a name that is found in a listing.
-/

namespace Ecma119

variable {δ : Type} [BlockDevice δ] {image : Image} {framing : Framing}

namespace Filesystem

variable {fs fs' fs₁ : Filesystem δ} {volume : Volume} {opts : ListOptions}

/-! ## The volume -/

/-- A volume that has been read is kept, and the options stay, so that later requests find both. -/
theorem kept_of_readVolume (h : readVolume.run.run fs = (.ok volume, fs')) :
    fs'.volume = some volume ∧ fs'.options = fs.options := by
  rw [readVolume, run_bind_ok run_get] at h
  obtain ⟨read, fs₁, hread, h⟩ := run_bind_eq_ok h
  cases hwork : (Volume.read fs.options).run.run fs.source with
  | mk outcome source =>
    rw [run_fromSource hwork] at hread
    cases hread
    rw [run_bind_ok (run_modify _), run_pure] at h
    cases h
    exact ⟨rfl, rfl⟩

/-- Once the file system is ready it keeps the volume, and the options are those for that volume. -/
theorem kept_of_ready (h : ready.run.run fs = (.ok (volume, opts), fs')) :
    fs'.volume = some volume ∧ opts = .forVolume volume fs'.options := by
  rw [ready, run_bind_ok run_get] at h
  cases hvolume : fs.volume with
  | some known =>
    rw [hvolume] at h
    obtain ⟨found, fs₁, hfound, h⟩ := run_bind_eq_ok h
    rw [run_pure] at hfound h
    cases hfound
    cases h
    exact ⟨hvolume, rfl⟩
  | none =>
    rw [hvolume] at h
    obtain ⟨found, fs₁, hread, h⟩ := run_bind_eq_ok h
    rw [run_pure] at h
    cases h
    obtain ⟨hkept, hoptions⟩ := kept_of_readVolume hread
    exact ⟨hkept, by rw [hoptions]⟩

/-- Once the volume has been read, it is at hand whatever is read from the source. -/
theorem run_ready_again (h : ready.run.run fs = (.ok (volume, opts), fs'))
    (source : SectorSource δ) :
    ready.run.run { fs' with source } = (.ok (volume, opts), { fs' with source }) := by
  obtain ⟨hvolume, rfl⟩ := kept_of_ready h
  rw [ready, run_bind_ok run_get]
  dsimp only
  rw [hvolume, run_bind_ok (run_pure volume)]
  exact run_pure _

/-! ## Requests on an image -/

/-- The entry at a path is what there is to be found going down in the image, or the failure met on the
way. -/
theorem run_stat {names : NameKind} {path : String} (hs : fs.source.Serves image framing)
    (hready : ready.run.run fs = (.ok (volume, opts), fs₁)) (hlength : path.utf8ByteSize ≤ 255) :
    ((stat path names).run.run fs).1 =
      image.descend framing opts names (volume.rootEntry opts) (pathComponents path) := by
  obtain ⟨source, hrun, -⟩ := Tree.yields_lookup volume hlength _ (serves_ready hs hready)
  rw [stat, run_bind_ok hready]
  dsimp only
  rw [run_fromSource hrun]

/-- What is listed at a path is the listing of what there is to be found at the path. -/
theorem run_readdir (path : String) (hs : fs.source.Serves image framing)
    (hready : ready.run.run fs = (.ok (volume, opts), fs₁)) (hlength : path.utf8ByteSize ≤ 255) :
    ∃ source, source.Serves image framing ∧ (readdir path).run.run fs =
      (image.descend framing opts .display (volume.rootEntry opts) (pathComponents path) >>=
        image.listing framing opts, { fs₁ with source }) := by
  have hlookup : SectorSource.Yields (δ := δ) image framing
      (Tree.lookup volume opts .display path) _ := Tree.yields_lookup volume hlength
  obtain ⟨source, hwork, hsource⟩ :=
    hlookup.bind (Tree.yields_list opts) _ (serves_ready hs hready)
  rw [readdir_eq, run_bind_ok hready]
  exact ⟨source, hsource, run_fromSource hwork⟩

/-- A directory that is listed was found, and the volume is at hand afterwards, so that entries in it can
be looked up. -/
theorem listing_of_readdir {path : String} {entries : List Entry}
    (hs : fs.source.Serves image framing) (hlength : path.utf8ByteSize ≤ 255)
    (hrun : (readdir path).run.run fs = (.ok entries, fs')) :
    ∃ volume opts directory fs₁, ready.run.run fs = (.ok (volume, opts), fs₁) ∧
      image.descend framing opts .display (volume.rootEntry opts) (pathComponents path) =
        .ok directory ∧
      image.listing framing opts directory = .ok entries ∧
      ready.run.run fs' = (.ok (volume, opts), fs') ∧ fs'.source.Serves image framing := by
  have hboth := hrun
  rw [readdir_eq] at hboth
  obtain ⟨⟨volume, opts⟩, fs₁, hready, -⟩ := run_bind_eq_ok hboth
  obtain ⟨source, hsource, hrun'⟩ := run_readdir path hs hready hlength
  obtain ⟨hentries, rfl⟩ := Prod.mk.inj (hrun'.symm.trans hrun)
  obtain ⟨directory, hdirectory, hlisting⟩ := except_bind_eq_ok hentries
  exact ⟨volume, opts, directory, fs₁, hready, hdirectory, hlisting,
    run_ready_again hready source, hsource⟩

end Filesystem

/-! ## Component by component -/

structure ExtendsBy (path before : String) (component : List Char) : Prop where
  length_le : path.utf8ByteSize ≤ 255
  length_before_le : before.utf8ByteSize ≤ 255
  parts_eq : pathParts path = pathParts before ++ [component]

/-- Looking paths up goes with listing directories, where names of one kind are looked for: only
the components of a path count, without any it is the root, and one more component fails as those
before it do, or because they do not lead to a directory, or as the directory cannot be listed, in
this order; otherwise it gives the first entry listed that has the name, if there is one. -/
structure GoesWith (names : NameKind) (root : Entry) (stat : String → Except Error Entry)
    (listing : Entry → Except Error (List Entry)) : Prop where
  of_parts_eq {path path' : String} (h : path.utf8ByteSize ≤ 255) (h' : path'.utf8ByteSize ≤ 255)
    (hparts : pathParts path = pathParts path') : stat path = stat path'
  of_nil {path : String} (h : path.utf8ByteSize ≤ 255) (hparts : pathParts path = []) :
    stat path = .ok root
  of_error {path before : String} {component : List Char} {failure : Error}
    (h : ExtendsBy path before component) (hbefore : stat before = .error failure) :
    stat path = .error failure
  of_not_isDirectory {path before : String} {component : List Char} {e : Entry}
    (h : ExtendsBy path before component) (hbefore : stat before = .ok e)
    (hkind : e.isDirectory = false) : stat path = .error .notADirectory
  of_listing_error {path before : String} {component : List Char} {directory : Entry}
    {failure : Error} (h : ExtendsBy path before component) (hbefore : stat before = .ok directory)
    (hkind : directory.isDirectory = true) (hlisting : listing directory = .error failure) :
    stat path = .error failure
  of_listing {path before : String} {component : List Char} {directory : Entry}
    {entries : List Entry} (h : ExtendsBy path before component)
    (hbefore : stat before = .ok directory) (hkind : directory.isDirectory = true)
    (hlisting : listing directory = .ok entries) :
    stat path = (entries.find? fun e =>
      Name.sameIgnoringCase (e.nameOf names) (.ofList component)).elim (.error .notFound) .ok

/-- On a source that serves an image, looking up goes with listing, for paths of every length. -/
theorem goesWith_lookup {s : SectorSource δ} (hs : s.Serves image framing) (volume : Volume)
    (opts : ListOptions) (names : NameKind) :
    GoesWith names (volume.rootEntry opts)
      (fun path => ((Tree.lookup volume opts names path).run.run s).1)
      (fun directory => ((Tree.list opts directory).run.run s).1) := by
  have hstat {path : String} (h : path.utf8ByteSize ≤ 255) :
      ((Tree.lookup volume opts names path).run.run s).1 =
        image.descend framing opts names (volume.rootEntry opts) (pathComponents path) := by
    obtain ⟨s', hrun, -⟩ := Tree.yields_lookup volume h s hs
    rw [hrun]
  have hlisting (directory : Entry) : ((Tree.list opts directory).run.run s).1 =
      image.listing framing opts directory := by
    obtain ⟨s', hrun, -⟩ := Tree.yields_list opts directory s hs
    rw [hrun]
  have hextends {path before : String} {component : List Char}
      (h : ExtendsBy path before component) :
      ((Tree.lookup volume opts names path).run.run s).1 =
        ((Tree.lookup volume opts names before).run.run s).1 >>= fun directory =>
          image.child framing opts names directory (.ofList component) := by
    rw [hstat h.length_le, hstat h.length_before_le, pathComponents_eq, pathComponents_eq,
      h.parts_eq, List.map_append, List.map_singleton, Image.descend_concat]
  constructor
  case of_parts_eq =>
    intro path path' h h' hparts
    rw [hstat h, hstat h', pathComponents_eq, pathComponents_eq, hparts]
  case of_nil =>
    intro path h hparts
    rw [hstat h, pathComponents_eq, hparts]
    rfl
  case of_error =>
    intro path before component failure h hbefore
    rw [hextends h, hbefore]
    rfl
  case of_not_isDirectory =>
    intro path before component e h hbefore hkind
    rw [hextends h, hbefore]
    exact Image.child_of_listing_error (Image.listing_of_not_isDirectory hkind)
  case of_listing_error =>
    intro path before component directory failure h hbefore _ hentries
    rw [hextends h, hbefore]
    exact Image.child_of_listing_error ((hlisting directory).symm.trans hentries)
  case of_listing =>
    intro path before component directory entries h hbefore _ hentries
    rw [hextends h, hbefore]
    exact Image.child_of_listing ((hlisting directory).symm.trans hentries)

/-- An entry that is listed has the name of the first entry listed that has it, which is the one that is
found. -/
theorem exists_find?_of_mem {entries : List Entry} {e : Entry} (he : e ∈ entries) :
    ∃ first, entries.find? (fun x => Name.sameIgnoringCase x.name e.name) = some first := by
  have hsame : Name.sameIgnoringCase e.name e.name = true := decide_eq_true rfl
  exact Option.isSome_iff_exists.mp (List.find?_isSome.mpr ⟨e, he, hsame⟩)

/-- **Looking up goes with listing.** On an image the entry at a path is the first one that the
directory before the last component lists under that name. So an entry that is listed at a path is
found at the path with the entry's name behind it, if that can be a component, unless an entry
before it has the same name, which is found then. -/
theorem lookup_goesWith_list {fs : Filesystem δ} (hs : fs.source.Serves image framing) :
    (∀ (volume : Volume) (opts : ListOptions) (names : NameKind),
      GoesWith names (volume.rootEntry opts)
        (fun path => ((Tree.lookup volume opts names path).run.run fs.source).1)
        (fun directory => ((Tree.list opts directory).run.run fs.source).1)) ∧
    ∀ (path : String) (entries : List Entry) (fs' : Filesystem δ),
      (Filesystem.readdir path).run.run fs = (.ok entries, fs') →
        ∀ e ∈ entries, e.name ≠ "" → '/' ∉ e.name.toList →
          (path ++ "/" ++ e.name).utf8ByteSize ≤ 255 →
            let stat (fs : Filesystem δ) :=
              ((Filesystem.stat (path ++ "/" ++ e.name) .display).run.run fs).1
            ∃ first, entries.find? (fun x => Name.sameIgnoringCase x.name e.name) = some first ∧
              stat fs = .ok first ∧ stat fs' = .ok first := by
  refine ⟨goesWith_lookup hs, ?_⟩
  intro path entries fs' hrun e he hne hslash hlength stat
  have hpath : path.utf8ByteSize ≤ 255 := by
    rw [String.utf8ByteSize_append, String.utf8ByteSize_append] at hlength
    omega
  obtain ⟨volume, opts, directory, fs₁, hready, hdirectory, hlisting, hagain, hs'⟩ :=
    Filesystem.listing_of_readdir hs hpath hrun
  obtain ⟨first, hfirst⟩ := exists_find?_of_mem he
  have hdescend : image.descend framing opts .display (volume.rootEntry opts)
      (pathComponents (path ++ "/" ++ e.name)) = .ok first := by
    rw [pathComponents_child path hne hslash, Image.descend_concat, hdirectory]
    show image.child framing opts .display directory e.name = _
    rw [Image.child_of_listing hlisting]
    show (entries.find? fun x => Name.sameIgnoringCase x.name e.name).elim _ _ = _
    rw [hfirst]
    rfl
  exact ⟨first, hfirst, (Filesystem.run_stat hs hready hlength).trans hdescend,
    (Filesystem.run_stat hs' hagain hlength).trans hdescend⟩

/-- A file in the root directory of an image of one sector is looked up as it is listed, whatever
the slashes and the case. -/
theorem lookup_goesWith_list_smallImage :
    let volume : Volume := ⟨.blank .primary Tree.smallRoot, none, false⟩
    let file : Entry := .ofRecord {} Tree.smallFile
    let fs : Filesystem MemoryDevice :=
      { source := .ofDevice (.ofBytes 2048 Tree.smallImage.bytes), options := {},
        volume := some volume }
    ∃ fs', (Filesystem.readdir "/").run.run fs = (.ok [file], fs') ∧
      ((Filesystem.stat "//a" .display).run.run fs').1 = .ok file ∧
      ((Tree.lookup volume {} .recorded "a//").run.run fs.source).1 = .ok file := by
  intro volume file fs
  have hs : fs.source.Serves Tree.smallImage .standard :=
    SectorSource.serves_ofDevice Tree.heldBy_smallImage .standard
  have hlisting : Tree.smallImage.listing .standard {} (volume.rootEntry {}) = .ok [file] :=
    eq_ok_of_toOption (by decide +kernel)
  have hready : (Filesystem.ready).run.run fs = (.ok (volume, {}), fs) := rfl
  obtain ⟨s', -, hrun⟩ := Filesystem.run_readdir "/" hs hready (by decide)
  have hcomponents : pathComponents "/" = [] := by decide
  rw [hcomponents, Image.descend, List.foldlM_nil, pure_bind, hlisting] at hrun
  have hfile : file.name = "a" := by decide +kernel
  obtain ⟨hgoes, hfound⟩ := lookup_goesWith_list hs
  obtain ⟨first, hfirst, -, hstat⟩ := hfound "/" [file] _ hrun file (List.mem_singleton.mpr rfl)
    (by rw [hfile]; decide) (by rw [hfile]; decide) (by rw [hfile]; decide)
  obtain rfl : first = file := List.mem_singleton.mp (List.mem_of_find?_eq_some hfirst)
  rw [hfile] at hstat
  refine ⟨_, hrun, hstat, ?_⟩
  obtain ⟨s₁, hlist, -⟩ := Tree.yields_list {} (volume.rootEntry {}) fs.source hs
  have hroot := (hgoes volume {} .recorded).of_nil (show "/".utf8ByteSize ≤ 255 by decide)
    (by decide)
  have hextends : ExtendsBy "a//" "/" ['a'] := ⟨by decide, by decide, by decide⟩
  have hentries : ((Tree.list {} (volume.rootEntry {})).run.run fs.source).1 = .ok [file] := by
    rw [hlist, hlisting]
  have hfind : [file].find? (fun e => Name.sameIgnoringCase (e.nameOf .recorded) (.ofList ['a'])) =
      some file := by decide +kernel
  have hstep := (hgoes volume {} .recorded).of_listing hextends hroot (by decide +kernel) hentries
  rw [hfind] at hstep
  exact hstep

end Ecma119
