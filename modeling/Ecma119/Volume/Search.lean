import Ecma119.Volume.DescriptorSet

/-!
# Searching an image for a volume

The framing of an image is found by its primary descriptor. Around the place where each sector near
sector 16 would be under each frame size, the bytes are searched for the start of such a descriptor;
every start found there gives a framing that puts it on sector 16. The first framing under which the
volume is confirmed stays in use.
-/

namespace Ecma119.Volume

/-- The frame sizes that are tried: bare sectors, raw sectors, and raw sectors without sync and
header. -/
def frameSizes : List UInt32 := [2048, 2352, 2336]

def primaryStart : Bytes := DescriptorType.primary.code :: DescriptorHeader.identifier

/-- A place to be searched: where a sector would be under a frame size. -/
structure Probe where
  sector : Nat
  frameSize : UInt32
deriving DecidableEq

/-- The sectors at a distance from sector 16, the one above first. -/
def sectorsAt (distance : Nat) : List Nat :=
  (16 + distance) :: if 0 < distance ∧ distance ≤ 16 then [16 - distance] else []

/-- The places at a distance from sector 16: both sides of it, each with all frame sizes. -/
def probesAt (distance : Nat) : List Probe :=
  (sectorsAt distance).flatMap fun sector => frameSizes.map fun frameSize => ⟨sector, frameSize⟩

/-- All places at less than `limit` sectors from sector 16, in the order of the search. -/
def probes (limit : Nat) : List Probe := (List.range limit).flatMap probesAt

/-- The bytes that are searched, as an offset and a length: the frame, the byte before it, and as much
behind it as an identifier takes, all within the `length` bytes there are. -/
def Probe.window? (p : Probe) (length : Nat) : Option (Nat × Nat) :=
  let start := p.sector * p.frameSize.toNat
  let first := start - 1
  let stop := min (start + p.frameSize.toNat + DescriptorHeader.identifier.length) length
  if first < stop then some (first, stop - first) else none

/-- The offsets at which `pattern` starts, where `offset` bytes come before the ones given. -/
def occurrences (pattern : Bytes) (offset : Nat) : Bytes → List Nat
  | [] => []
  | b :: rest =>
    if pattern.isPrefixOf (b :: rest) then offset :: occurrences pattern (offset + 1) rest
    else occurrences pattern (offset + 1) rest

/-- The framing that puts what is at `offset` on sector 16. Searches go less than `2 ^ 16` sectors from
there, so that the start is nowhere near the end of 64 bits with a sign. -/
def framingFor (frameSize : UInt32) (offset : Nat) : Framing :=
  ⟨frameSize, .ofInt (offset - 16 * frameSize.toNat)⟩

variable {δ : Type} [BlockDevice δ]

/-- The volume under the framing in use, as far as the options ask for it to be read. -/
def confirm (options : MountOptions) : SourceM δ Volume :=
  match options.confirmation with
  | .descriptorSet => read options
  | .primaryDescriptor => do
    let primary ← readPrimary options
    return { primary, joliet := none, hasRockRidge := false }

/-- The first framing under which the volume is confirmed, with the volume. It stays in use; if there
is none, the last one does. -/
def confirmFirst (options : MountOptions) : List Framing → SourceM δ (Option (Framing × Volume))
  | [] => return none
  | framing :: rest => do
    SectorSource.setFraming framing
    match ← SectorSource.attempt (confirm options) with
    | .ok volume => return some (framing, volume)
    | .error _ => confirmFirst options rest

/-- The framings that the bytes at a place give. Bytes that cannot be read give none. -/
def framingsAt (length : Nat) (p : Probe) : SourceM δ (List Framing) := do
  match p.window? length with
  | none => return []
  | some (first, count) =>
    match ← SectorSource.attempt (SectorSource.readBytes (δ := δ) first count) with
    | .ok window => return (occurrences primaryStart first window).map (framingFor p.frameSize)
    | .error _ => return []

/-- Searches places in turn until a framing is confirmed. No failure on the way ends it, as a place that
cannot be read may be followed by one that can. -/
def searchProbes (options : MountOptions) (length : Nat) :
    List Probe → SourceM δ (Option (Framing × Volume))
  | [] => return none
  | p :: rest => do
    let framings ← framingsAt length p
    match ← confirmFirst (δ := δ) options framings with
    | some found => return some found
    | none => searchProbes options length rest

/-- Finds the framing of an image and the volume on it. If there is none, the framing in use before
is in use again. -/
def search (options : MountOptions) (limit : Nat) : SourceM δ (Framing × Volume) := do
  let before ← SectorSource.getFraming
  let length := (← SectorSource.byteLength).toNat
  match ← searchProbes (δ := δ) options length (probes limit) with
  | some found => return found
  | none =>
    SectorSource.setFraming before
    throw (.format .superblockNotFound)

end Ecma119.Volume
