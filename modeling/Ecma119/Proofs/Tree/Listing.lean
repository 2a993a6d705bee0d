import Ecma119.Proofs.Source.Failing
import Ecma119.Proofs.Source.Serving
import Ecma119.Tree.Lookup

/-!
# Directories of an image

`Image.listing` tells what there is to be listed, without a device. A source that serves the image
lists exactly that. A listing can fail for many reasons, but never because something was not found.
-/

namespace Ecma119

namespace Image

def directoryBytes (image : Image) (framing : Framing) (directory : Entry) : Except Error Bytes := do
  let extent ← directory.directoryExtent
  let sectors ← image.readSectors framing extent.lsn (sectorsForBytes extent.size.toNat)
  return sectors.take extent.size.toNat

/-- The entries of a directory, as they are read from an image under a framing. -/
def listing (image : Image) (framing : Framing) (opts : ListOptions) (directory : Entry) :
    Except Error (List Entry) := do
  let extent ← image.directoryBytes framing directory
  (parseDirectory opts extent).mapError .format

/-- A directory is listed if its bytes can be read and hold records that make entries. -/
theorem listing_eq_ok {image : Image} {framing : Framing} {opts : ListOptions} {directory : Entry}
    {entries : List Entry} :
    image.listing framing opts directory = .ok entries ↔
      ∃ extent, image.directoryBytes framing directory = .ok extent ∧
        parseDirectory opts extent = .ok entries := by
  simp only [listing, except_bind_eq_ok_iff, mapError_eq_ok]

end Image

namespace Tree

variable {δ : Type} [BlockDevice δ]

/-- A source that serves an image lists its directories, or fails as the image does. -/
theorem yields_list {image : Image} {framing : Framing} (opts : ListOptions) (directory : Entry) :
    SectorSource.Yields (δ := δ) image framing (list opts directory)
      (image.listing framing opts directory) := by
  have hlisting : image.listing framing opts directory =
      directory.directoryExtent >>= fun extent =>
        image.readSectors framing extent.lsn (sectorsForBytes extent.size.toNat) >>= fun sectors =>
          (parseDirectory opts (sectors.take extent.size.toNat)).mapError .format := by
    simp only [Image.listing, Image.directoryBytes, bind_assoc, pure_bind]
  have hextent : SectorSource.Yields (δ := δ) image framing
      (ExceptT.mk (pure directory.directoryExtent)) directory.directoryExtent :=
    fun s hs => ⟨s, rfl, hs⟩
  rw [hlisting]
  exact hextent.bind fun extent =>
    (SectorSource.yields_readSectors _ _).bind fun sectors => .liftM _

/-- Listing a directory does not fail because something was not found: only looking for a name does. -/
theorem list_ne_notFound (opts : ListOptions) (directory : Entry) :
    FailsWith (· ≠ .notFound) (list opts directory : SourceM δ (List Entry)) := by
  have hextent : FailsWith (· ≠ .notFound)
      (ExceptT.mk (Pure.pure directory.directoryExtent) : SourceM δ Extent) := by
    rw [Entry.directoryExtent]
    split
    · split
      · exact .pure _
      · exact .throw (by simp)
    · exact .throw (by simp)
  refine hextent.bind fun extent => ?_
  refine .bind ?_ fun sectors => .liftM fun cause _ => by simp
  refine (SectorSource.failsWith_readSectors _ _).mono ?_
  rintro _ ⟨lba, message, rfl⟩
  simp

end Tree

end Ecma119
