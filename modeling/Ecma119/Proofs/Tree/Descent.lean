import Ecma119.Proofs.Tree.Listing
import Ecma119.Proofs.Tree.Trail

/-!
# Going down by names

What there is at a path is told without a device: `Image.child` is the entry with a name in a
directory of an image, and `Image.descend` goes down from one name to the next. A source that serves
the image looks paths up so. Of a path only its components count, the parts between slashes that are
not empty.
-/

namespace Ecma119

/-! ## Components -/

/-- The parts of a path between its slashes that are not empty. -/
def pathParts (path : String) : List (List Char) := (path.toList.splitOn '/').filter (· ≠ [])

/-- The components of a path are what stands between its slashes, if anything does. -/
theorem pathComponents_eq (path : String) :
    pathComponents path = (pathParts path).map String.ofList := by
  rw [pathComponents, pathParts, splitAtEach_eq_splitOn]
  congr 2
  funext part
  cases part <;> rfl

/-- A name behind a path is its last component, if it is not empty and has no slash in it. -/
theorem pathComponents_child (path : String) {name : String} (hne : name ≠ "")
    (hslash : '/' ∉ name.toList) :
    pathComponents (path ++ "/" ++ name) = pathComponents path ++ [name] := by
  have hchars : (path ++ "/" ++ name).toList = path.toList ++ '/' :: name.toList := by
    simp [String.toList_append]
  have hparts : (path ++ "/" ++ name).toList.splitOn '/' =
      path.toList.splitOn '/' ++ [name.toList] := by
    rw [hchars, List.splitOn_append_cons_self, List.splitOn_eq_singleton hslash]
  have hkept : [name.toList].filter (· ≠ []) = [name.toList] := by simp [hne]
  rw [pathComponents_eq, pathComponents_eq, pathParts, pathParts, hparts, List.filter_append, hkept,
    List.map_append, List.map_singleton, String.ofList_toList]

/-! ## Entries by name -/

namespace Image

/-- The first entry in a directory that has the name, up to case. There may be others, which are not
found. -/
def child (image : Image) (framing : Framing) (opts : ListOptions) (names : NameKind)
    (directory : Entry) (name : String) : Except Error Entry := do
  let entries ← image.listing framing opts directory
  match entries.find? fun e => Name.sameIgnoringCase (e.nameOf names) name with
  | some e => .ok e
  | none => .error .notFound

/-- The entry that is reached by going down from one name to the next. -/
def descend (image : Image) (framing : Framing) (opts : ListOptions) (names : NameKind)
    (start : Entry) (components : List String) : Except Error Entry :=
  components.foldlM (image.child framing opts names) start

variable {image : Image} {framing : Framing} {opts : ListOptions} {names : NameKind}
variable {directory : Entry} {name : String}

/-- Following a path and one more component is following the path and then looking for that one. -/
theorem descend_concat (start : Entry) (components : List String) (name : String) :
    image.descend framing opts names start (components ++ [name]) =
      image.descend framing opts names start components >>= fun directory =>
        image.child framing opts names directory name := by
  rw [descend, List.foldlM_append]
  simp only [List.foldlM_cons, List.foldlM_nil, bind_pure]
  rfl

/-- What is no directory is not listed, and nothing is read for it. -/
theorem listing_of_not_isDirectory (h : directory.isDirectory = false) :
    image.listing framing opts directory = .error .notADirectory := by
  rw [listing, directoryBytes, Entry.directoryExtent, h]
  rfl

/-- Where a directory cannot be listed, looking for a name in it fails in the same way. -/
theorem child_of_listing_error {failure : Error}
    (h : image.listing framing opts directory = .error failure) :
    image.child framing opts names directory name = .error failure := by
  rw [child, h]
  rfl

/-- A name is looked for among the entries that are listed, and the first that has it, up to case, is
taken. -/
theorem child_of_listing {entries : List Entry}
    (h : image.listing framing opts directory = .ok entries) :
    image.child framing opts names directory name =
      (entries.find? fun e => Name.sameIgnoringCase (e.nameOf names) name).elim
        (.error .notFound) .ok := by
  rw [child, h]
  show (match entries.find? _ with | some e => _ | none => _) = _
  cases entries.find? _ with
  | none => rfl
  | some e => rfl

end Image

namespace Tree

variable {δ : Type} [BlockDevice δ] {image : Image} {framing : Framing} {opts : ListOptions}
variable {names : NameKind}

/-- A source that serves an image goes down as there is a way down in the image, or fails as that does.
-/
theorem yields_descend (start : Entry) (components : List String) :
    SectorSource.Yields (δ := δ) image framing (follow opts names start components)
      (image.descend framing opts names start components) := by
  induction components generalizing start with
  | nil => exact .pure start
  | cons name rest ih =>
    have hlist : SectorSource.Yields (δ := δ) image framing (list opts start) _ :=
      yields_list opts start
    rw [follow, Image.descend, List.foldlM_cons]
    cases hlisting : image.listing framing opts start with
    | error failure =>
      rw [hlisting] at hlist
      rw [Image.child_of_listing_error hlisting]
      exact hlist.bind_error
    | ok entries =>
      rw [hlisting] at hlist
      rw [Image.child_of_listing hlisting]
      refine hlist.bind_ok ?_
      split
      · next e hfind =>
        rw [hfind]
        exact ih e
      · next hfind =>
        rw [hfind]
        exact .throw _

/-- A path that is not too long is followed by its components, from the entry of the root. -/
theorem yields_lookup (volume : Volume) {path : String} (hlength : path.utf8ByteSize ≤ 255) :
    SectorSource.Yields (δ := δ) image framing (lookup volume opts names path)
      (image.descend framing opts names (volume.rootEntry opts) (pathComponents path)) := by
  have hshort : ¬ maxLookupLength < path.utf8ByteSize := Nat.not_lt.mpr hlength
  rw [lookup, if_neg hshort]
  exact yields_descend _ _

end Tree

end Ecma119
