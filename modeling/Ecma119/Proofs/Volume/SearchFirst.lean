import Ecma119.Proofs.Source.Following
import Ecma119.Proofs.Volume.DescriptorSet
import Ecma119.Proofs.Volume.Sighting

/-!
# The search takes the first sighting

A search is one run through `sightings`: each puts its framing in use and the volume is confirmed under
it, until that succeeds. On a source that serves an image, what a confirmation comes to depends on the
framing only (`yields_confirm`), so the outcome is that of looking through a list (`firstUnder`), and
`search_finds_first` says it without a list.
-/

namespace Ecma119.Volume

variable {δ : Type} [BlockDevice δ] {image : Image} {before : Framing} {s : SectorSource δ}

/-! ## Confirmation -/

/-- What reading the volume comes to under a framing, as far as the options ask for it to be read. -/
def checkUnder (options : MountOptions) (s : SectorSource δ) (framing : Framing) :
    Except Error Volume :=
  match options.confirmation with
  | .descriptorSet => ((read options).run.run { s with framing }).1
  | .primaryDescriptor =>
    ((readPrimary options).run.run { s with framing }).1.map fun primary => ⟨primary, none, false⟩

/-- Confirmation is that reading: what it comes to under a framing is `checkUnder`. -/
theorem run_confirm (options : MountOptions) (s : SectorSource δ) (framing : Framing) :
    ((confirm options).run.run { s with framing }).1 = checkUnder options s framing := by
  rw [confirm, checkUnder]
  cases options.confirmation with
  | descriptorSet => rfl
  | primaryDescriptor =>
    dsimp only
    cases hrun : (readPrimary options).run.run { s with framing } with
    | mk outcome s' =>
      cases outcome with
      | ok primary => rw [run_bind_ok hrun, run_pure]; rfl
      | error failure => rw [run_bind_error hrun]; rfl

/-- Whatever has been read before, confirmation comes to the same under the same framing. -/
theorem yields_confirm (hs : s.Serves image before) (options : MountOptions) (framing : Framing) :
    SectorSource.Yields image framing (confirm options : SourceM δ Volume)
      (checkUnder options s framing) := by
  intro t ht
  have hsectors : SectorsFollow (δ := δ) (ε := δ) (BothServe image image framing framing)
      fun _ => True :=
    .of_images (fun _ _ => rfl) (fun _ _ _ => rfl)
  have hcarried : IsCarried (fun _ => True) (checkUnder options s framing) := by
    cases checkUnder options s framing <;> trivial
  obtain ⟨t', hrun, -, ht'⟩ :=
    (hsectors.reads _).confirm options { s with framing } t ⟨hs.setFraming framing, ht⟩ _ _
      (Prod.ext (run_confirm options s framing) rfl) hcarried
  exact ⟨t', hrun, ht'⟩

/-- A volume that is confirmed reads so, unless its primary descriptor was all that was asked
for. -/
theorem checkUnder_eq_ok {framing : Framing} {volume : Volume}
    (h : checkUnder options s framing = .ok volume) :
    ((read options).run.run { s with framing }).1 = .ok volume ∨
      options.confirmation = .primaryDescriptor ∧
        ((readPrimary options).run.run { s with framing }).1 = .ok volume.primary ∧
        volume.joliet = none ∧ volume.hasRockRidge = false := by
  rw [checkUnder] at h
  cases hconfirmation : options.confirmation with
  | descriptorSet =>
    rw [hconfirmation] at h
    exact .inl h
  | primaryDescriptor =>
    rw [hconfirmation] at h
    dsimp only at h
    cases hprimary : ((readPrimary options).run.run { s with framing }).1 with
    | error failure =>
      rw [hprimary] at h
      cases h
    | ok primary =>
      rw [hprimary] at h
      cases h
      exact .inr ⟨rfl, rfl, rfl, rfl⟩

/-- A volume that is confirmed has its primary descriptor on sector 16 under that framing. -/
theorem holds_of_checkUnder (hs : s.Serves image before)
    (h : checkUnder options s framing = .ok volume) :
    Holds options (image.readSector framing) 0 volume.primary ∧ volume.primary.type = .primary := by
  have hshows := (hs.setFraming framing).shows
  rcases checkUnder_eq_ok h with hread | ⟨-, hprimary, -⟩
  · obtain ⟨-, stop, -, hdescribes⟩ := describes_of_read hshows (Prod.ext hread rfl)
    exact hdescribes.primary
  · obtain ⟨hholds, htype, -⟩ := holds_of_readPrimary hshows (Prod.ext hprimary rfl)
    exact ⟨hholds, htype⟩

/-- A primary descriptor on sector 16 is a volume, if no more than that is asked for. -/
theorem checkUnder_of_holds {options : MountOptions} {d : VolumeDescriptor}
    (hconfirmation : options.confirmation = .primaryDescriptor) (hs : s.Serves image before)
    {framing : Framing} (h : Holds options (image.readSector framing) 0 d) (htype : d.type = .primary) :
    checkUnder options s framing = .ok ⟨d, none, false⟩ := by
  obtain ⟨s', hrun, -⟩ := run_readPrimary (hs.setFraming framing).shows h htype
  rw [checkUnder, hconfirmation]
  dsimp only
  rw [hrun]
  rfl

/-- A volume is confirmed under the framing of a place only if the image has a whole sector there. -/
theorem add_le_length_of_checkUnder (hs : s.Serves image before) {options : MountOptions}
    {frameSize : UInt32} {position : Nat} {volume : Volume} (hposition : position < 2 ^ 63)
    (h : checkUnder options s (framingFor frameSize position) = .ok volume) :
    position + sectorSize ≤ image.bytes.length := by
  obtain ⟨⟨bytes, hbytes, -⟩, -⟩ := holds_of_checkUnder hs h
  obtain ⟨offset, hoffset, hend, -⟩ := Image.readSector_eq_ok.mp hbytes
  obtain rfl := Option.some.inj ((byteOffset?_framingFor frameSize hposition).symm.trans hoffset)
  exact hend

/-! ## Looking through windows -/

omit [BlockDevice δ] in
/-- An attempt does not fail: what fails within it is given as a value. -/
theorem run_attempt {α : Type} {work : SourceM δ α} {s s' : SectorSource δ} {result : Except Error α}
    (h : work.run.run s = (result, s')) :
    (SectorSource.attempt work).run.run s = (.ok result, s') := by
  show ((.ok (work.run.run s).1, (work.run.run s).2) : Except Error _ × _) = _
  rw [h]

/-- A window gives the framings of the places in it, from the first place to the last. -/
theorem yields_framingsAt (p : Probe) :
    SectorSource.Yields image before (framingsAt image.bytes.length p : SourceM δ (List Framing))
      (.ok ((startsIn image p).map (framingFor p.frameSize))) := by
  intro s hs
  rw [framingsAt, startsIn]
  cases hwindow : p.window? image.bytes.length with
  | none => exact ⟨s, run_pure _, hs⟩
  | some window =>
    obtain ⟨first, count⟩ := window
    have hread : image.readBytes first count = .ok (image.bytes.slice first count) := by
      rw [Probe.window?] at hwindow
      split at hwindow
      · cases hwindow
        rw [Image.readBytes, if_neg (by omega), if_neg (by omega)]
      · cases hwindow
    obtain ⟨s', hrun, hs'⟩ := SectorSource.yields_readBytes first count s hs
    refine ⟨s', ?_, hs'⟩
    dsimp only
    rw [run_bind_ok (run_attempt hrun), hread]
    exact run_pure _

/-! ## Trying framings in turn -/

section Trying

variable {check : Framing → Except Error Volume}

/-- A framing with the volume, if the check gives one. Why it gives none does not matter to a search. -/
def foundUnder (check : Framing → Except Error Volume) (framing : Framing) :
    Option (Framing × Volume) :=
  (check framing).toOption.map fun volume => (framing, volume)

/-- The first of the framings under which the check gives a volume. -/
def firstUnder (check : Framing → Except Error Volume) (framings : List Framing) :
    Option (Framing × Volume) :=
  framings.findSome? (foundUnder check)

/-- Framings are tried in order, so that a later one is taken only if none before it is confirmed. -/
theorem firstUnder_append (framings rest : List Framing) :
    firstUnder check (framings ++ rest) = (firstUnder check framings).or (firstUnder check rest) :=
  List.findSome?_append

/-- The source still serves the image, under the framing that was found if one was. -/
def Settled (image : Image) (found : Option (Framing × Volume)) (s : SectorSource δ) : Prop :=
  ∃ framing, s.Serves image framing ∧ ∀ pair ∈ found, pair.1 = framing

variable {options : MountOptions}
  (hcheck : ∀ framing, SectorSource.Yields image framing (confirm options : SourceM δ Volume)
    (check framing))
include hcheck

/-- Framings are tried in turn until one is confirmed, by induction on those that are left. -/
theorem run_confirmFirst (framings : List Framing) (hs : s.Serves image before) :
    ∃ s', (confirmFirst options framings).run.run s = (.ok (firstUnder check framings), s') ∧
      Settled image (firstUnder check framings) s' := by
  induction framings generalizing s before with
  | nil => exact ⟨s, run_pure none, before, hs, fun _ h => nomatch h⟩
  | cons framing rest ih =>
    obtain ⟨s₁, hconfirm, hs₁⟩ := hcheck framing _ (hs.setFraming framing)
    have hset : (SectorSource.setFraming framing : SourceM δ Unit).run.run s =
        (.ok (), { s with framing }) := run_modify _
    rw [confirmFirst, run_bind_ok hset, run_bind_ok (run_attempt hconfirm), firstUnder,
      List.findSome?_cons, foundUnder]
    cases hresult : check framing with
    -- The framing stays in use, whatever stands behind it in the list.
    | ok volume =>
      refine ⟨s₁, run_pure _, framing, hs₁, fun pair hpair => ?_⟩
      cases hpair
      rfl
    | error failure => exact ih hs₁

/-- The framings of all places are tried in the order of the search, until one is confirmed. -/
theorem run_searchProbes (places : List Probe) (hs : s.Serves image before) :
    let framings := places.flatMap fun p => (startsIn image p).map (framingFor p.frameSize)
    ∃ s', (searchProbes options image.bytes.length places).run.run s =
        (.ok (firstUnder check framings), s') ∧ Settled image (firstUnder check framings) s' := by
  induction places generalizing s before with
  | nil => exact ⟨s, run_pure none, before, hs, fun _ h => nomatch h⟩
  | cons p rest ih =>
    obtain ⟨s₁, hframings, hs₁⟩ := yields_framingsAt p s hs
    obtain ⟨s₂, hconfirm, framing, hs₂, hfound⟩ := run_confirmFirst hcheck
      ((startsIn image p).map (framingFor p.frameSize)) hs₁
    dsimp only
    rw [searchProbes, run_bind_ok hframings, run_bind_ok hconfirm, List.flatMap_cons,
      firstUnder_append]
    cases hfirst : firstUnder check ((startsIn image p).map (framingFor p.frameSize)) with
    | some found =>
      rw [hfirst] at hfound
      exact ⟨s₂, run_pure _, framing, hs₂, hfound⟩
    | none => exact ih hs₂

end Trying

/-! ## The first sighting -/

/-- The framings that are tried are those of the sightings, in the same order. -/
theorem framings_of_probes (image : Image) (limit : Nat) :
    (probes limit).flatMap (fun p => (startsIn image p).map (framingFor p.frameSize)) =
      (sightings image limit).map Sighting.framing := by
  have hsectors : ∀ distance, sectorsAt distance =
      (sidesAt distance).map fun below => if below then 16 - distance else 16 + distance := by
    intro distance
    rw [sectorsAt, sidesAt]
    split <;> rfl
  simp only [probes, probesAt, sightings, hsectors, List.map_flatMap, List.flatMap_assoc,
    List.flatMap_map, List.map_map]
  rfl

/-- A sighting is the first under whose framing the check gives a volume. -/
structure IsFirst (image : Image) (limit : Nat) (check : Framing → Except Error Volume)
    (c : Sighting) (volume : Volume) : Prop where
  valid : c.Valid image limit
  confirms : check c.framing = .ok volume
  /-- Of the sightings come upon before it, none has such a framing. -/
  fails_before : ∀ c' : Sighting, c'.Valid image limit → c'.key < c.key →
    ∀ volume, check c'.framing ≠ .ok volume

section First

variable {limit : Nat} {check : Framing → Except Error Volume}

/-- There is no more than one such sighting, as of two the one that comes later is not first. -/
theorem IsFirst.unique {c c' : Sighting} {volume volume' : Volume} (h : IsFirst image limit check c volume)
    (h' : IsFirst image limit check c' volume') : c = c' :=
  Sighting.eq_of_not_lt h.valid.frameSize_mem
    (fun hlt => h'.fails_before c h.valid hlt volume h.confirms)
    (fun hlt => h.fails_before c' h'.valid hlt volume' h'.confirms)

/-- A framing is found with the volume that it is confirmed with. -/
theorem foundUnder_eq_some {framing found : Framing} {volume : Volume} :
    foundUnder check framing = some (found, volume) ↔
      framing = found ∧ check framing = .ok volume := by
  rw [foundUnder]
  cases check framing with
  | ok volume' => simp [Except.toOption]
  | error failure => simp [Except.toOption]

/-- A framing is passed over exactly if no volume is confirmed under it. -/
theorem foundUnder_eq_none {framing : Framing} :
    foundUnder check framing = none ↔ ∀ volume, check framing ≠ .ok volume := by
  rw [foundUnder]
  cases check framing with
  | ok volume => simp [Except.toOption]
  | error failure => simp [Except.toOption]

/-- What is found in the list of sightings is the first of them that is confirmed. -/
theorem isFirst_of_firstUnder {framing : Framing} {volume : Volume}
    (h : firstUnder check ((sightings image limit).map Sighting.framing) = some (framing, volume)) :
    ∃ c : Sighting, c.framing = framing ∧ IsFirst image limit check c volume := by
  rw [firstUnder, List.findSome?_map, List.findSome?_eq_some_iff] at h
  obtain ⟨earlier, c, later, hsplit, hfound, hnone⟩ := h
  obtain ⟨hframing, hvolume⟩ := foundUnder_eq_some.mp hfound
  have hmem : c ∈ sightings image limit := by
    rw [hsplit]
    exact List.mem_append_right _ List.mem_cons_self
  refine ⟨c, hframing, mem_sightings.mp hmem, hvolume, fun c' hvalid hkey => ?_⟩
  have hmem' := mem_sightings.mpr hvalid
  rw [hsplit, List.mem_append, List.mem_cons] at hmem'
  -- A sighting that stands behind `c` in the list, or is `c`, has no smaller key.
  rcases hmem' with hearlier | rfl | hlater
  · exact foundUnder_eq_none.mp (hnone c' hearlier)
  · exact absurd hkey (List.lt_irrefl _)
  · have hsorted := pairwise_sightings image limit
    rw [hsplit, List.pairwise_append, List.pairwise_cons] at hsorted
    exact absurd (hsorted.2.1.1 c' hlater) (List.lt_asymm hkey)

/-- The first of the sightings that is confirmed is what is found in the list. -/
theorem firstUnder_of_isFirst {c : Sighting} {volume : Volume} (h : IsFirst image limit check c volume) :
    firstUnder check ((sightings image limit).map Sighting.framing) = some (c.framing, volume) := by
  obtain ⟨earlier, later, hsplit⟩ := List.append_of_mem (mem_sightings.mpr h.valid)
  have hsorted := pairwise_sightings image limit
  rw [hsplit, List.pairwise_append] at hsorted
  rw [firstUnder, List.findSome?_map, List.findSome?_eq_some_iff]
  refine ⟨earlier, c, later, hsplit, foundUnder_eq_some.mpr ⟨rfl, h.confirms⟩, fun c' hmem => ?_⟩
  have hvalid : c'.Valid image limit := by
    rw [← mem_sightings, hsplit]
    exact List.mem_append_left _ hmem
  have hkey : c'.key < c.key := hsorted.2.2 c' hmem c List.mem_cons_self
  exact foundUnder_eq_none.mpr (h.fails_before c' hvalid hkey)

/-- Nothing is found in the list of sightings if no sighting has a framing with a volume. -/
theorem firstUnder_eq_none :
    firstUnder check ((sightings image limit).map Sighting.framing) = none ↔
      ∀ c : Sighting, c.Valid image limit → ∀ volume, check c.framing ≠ .ok volume := by
  rw [firstUnder, List.findSome?_map, List.findSome?_eq_none_iff]
  constructor
  · intro h c hvalid
    exact foundUnder_eq_none.mp (h c (mem_sightings.mpr hvalid))
  · intro h c hmem
    exact foundUnder_eq_none.mpr (h c (mem_sightings.mp hmem))

end First

/-- A search finds what looking through the list of sightings finds, and puts the framing in use again
that was before if that is nothing. -/
theorem run_search (hs : s.Serves image before) (options : MountOptions) (limit : Nat) :
    let found :=
      firstUnder (checkUnder options s) ((sightings image limit).map Sighting.framing)
    ∃ s', match found with
      | some (framing, volume) => (search options limit).run.run s = (.ok (framing, volume), s') ∧
          s'.Serves image framing
      | none => (search options limit).run.run s = (.error (.format .superblockNotFound), s') ∧
          s'.Serves image before := by
  -- The length is that of the image, so the windows are those of the sightings.
  obtain ⟨s₁, hframing, hs₁⟩ := SectorSource.yields_getFraming s hs
  obtain ⟨s₂, hlength, hs₂⟩ := SectorSource.yields_byteLength s₁ hs₁
  obtain ⟨s₃, hsearch, framing, hs₃, hfound⟩ :=
    run_searchProbes (yields_confirm hs options) (probes limit) hs₂
  rw [framings_of_probes] at hsearch hfound
  dsimp only
  rw [search, run_bind_ok hframing, run_bind_ok hlength, hs.toNat_length, run_bind_ok hsearch]
  cases hfirst :
      firstUnder (checkUnder options s) ((sightings image limit).map Sighting.framing) with
  | some pair =>
    rw [hfirst] at hfound
    cases hfound pair rfl
    exact ⟨s₃, run_pure pair, hs₃⟩
  | none =>
    have hset : (SectorSource.setFraming before : SourceM δ Unit).run.run s₃ =
        (.ok (), { s₃ with framing := before }) := run_modify _
    refine ⟨_, ?_, hs₃.setFraming before⟩
    dsimp only
    rw [run_bind_ok hset]
    exact run_throw _

/-- A search sees every start of a primary descriptor within its range. It succeeds if a sighting gives
a framing under which the volume is confirmed, with the first such and with what the confirmation gave;
otherwise it fails, and the framing in use before is in use again. -/
theorem search_finds_first (hs : s.Serves image before) (options : MountOptions) (limit : Nat) :
    let run := (search options limit).run.run s
    let check := checkUnder options s
    (1 ≤ limit → ∀ frameSize ∈ frameSizes, ∀ position,
      (16 - (limit - 1)) * frameSize.toNat - 1 ≤ position →
      position ≤ (17 + (limit - 1)) * frameSize.toNat - 1 →
      image.bytes.slice position 6 = primaryStart →
        ∃ c : Sighting, c.Valid image limit ∧ c.frameSize = frameSize ∧ c.position = position) ∧
    ((∃ found, run.1 = .ok found) ↔
      ∃ c : Sighting, c.Valid image limit ∧ ∃ volume, check c.framing = .ok volume) ∧
    (∀ framing volume, run.1 = .ok (framing, volume) →
      (∃ c : Sighting, c.framing = framing ∧ IsFirst image limit check c volume) ∧
        run.2.framing = framing) ∧
    ((∀ c : Sighting, c.Valid image limit → ∀ volume, check c.framing ≠ .ok volume) →
      run.1 = .error (.format .superblockNotFound) ∧ run.2.framing = before) := by
  refine ⟨fun hlimit frameSize hframe position hfirst hlast hstart =>
    exists_sighting hlimit hframe hfirst hlast hstart, ?_⟩
  obtain ⟨s', hrun⟩ := run_search hs options limit
  cases hfirst :
      firstUnder (checkUnder options s) ((sightings image limit).map Sighting.framing) with
  | some pair =>
    obtain ⟨framing, volume⟩ := pair
    rw [hfirst] at hrun
    obtain ⟨hrun, hs'⟩ := hrun
    obtain ⟨c, hframing, hc⟩ := isFirst_of_firstUnder hfirst
    rw [hrun]
    refine ⟨⟨fun _ => ⟨c, hc.valid, volume, hc.confirms⟩, fun _ => ⟨_, rfl⟩⟩, ?_, ?_⟩
    · intro framing' volume' heq
      cases heq
      exact ⟨⟨c, hframing, hc⟩, hs'.framing_eq⟩
    · intro hnone
      exact absurd hc.confirms (hnone c hc.valid volume)
  | none =>
    rw [hfirst] at hrun
    obtain ⟨hrun, hs'⟩ := hrun
    have hnone := firstUnder_eq_none.mp hfirst
    rw [hrun]
    refine ⟨⟨fun ⟨_, heq⟩ => (nomatch heq), ?_⟩, fun _ _ heq => (nomatch heq), ?_⟩
    · rintro ⟨c, hvalid, volume, hvolume⟩
      exact absurd hvolume (hnone c hvalid volume)
    · exact fun _ => ⟨rfl, hs'.framing_eq⟩

/-! ### An image that is cut off at its start -/

/-- A primary descriptor at the start, and another start of one behind it. -/
def cutOff : Image := .inShortBlocks (blankPrimary ++ (primaryStart ++ Bytes.zeros 506))

def cutOffSource : SectorSource MemoryDevice := .ofDevice (.ofBytes 512 cutOff.bytes)

theorem length_cutOff : cutOff.bytes.length = 2560 := by
  rw [cutOff, Image.inShortBlocks, List.length_append, List.length_append, length_blankPrimary,
    Bytes.length_zeros]
  rfl

theorem serves_cutOffSource : cutOffSource.Serves cutOff .standard :=
  SectorSource.serves_ofDevice (MemoryDevice.heldBy_ofBytes rfl ⟨5, length_cutOff⟩
    (by rw [length_cutOff]; decide)) .standard

/-- The whole descriptor is at its start. -/
theorem slice_cutOff : cutOff.bytes.slice 0 2048 = blankPrimary := List.take_left' length_blankPrimary

/-- Whatever is come upon before the descriptor at the start starts behind sector 0. -/
theorem le_position_of_key_lt {c : Sighting} (hc : c.Valid cutOff 17)
    (hkey : c.key < (Sighting.mk 16 true 2048 0).key) : 2047 ≤ c.position := by
  have hframe : 2048 ≤ c.frameSize.toNat := sectorSize_le_of_mem_frameSizes hc.frameSize_mem
  have hpos : 0 < c.sector := by
    have hindex : frameSizes.idxOf 2048 = 0 := rfl
    rw [key_lt_iff] at hkey
    simp only [hindex, Bool.toNat_true, Nat.not_lt_zero, and_false, or_false] at hkey
    have hbelow := hc.below_sixteen
    rw [Sighting.sector]
    cases hside : c.below with
    | false => exact Nat.lt_of_lt_of_le (by decide) (Nat.le_add_right 16 c.distance)
    | true =>
      rw [hside] at hkey
      simp only [Bool.toNat_true, if_true] at hkey ⊢
      omega
  have hwindow := hc.windowStart
  have hstart := Nat.le_mul_of_pos_left c.frameSize.toNat hpos
  omega

/-- The descriptor at the start is the first of which the image has a whole sector. -/
theorem exists_isFirst_cutOff (options : MountOptions)
    (hconfirmation : options.confirmation = .primaryDescriptor) :
    ∃ volume, IsFirst cutOff 17 (checkUnder options cutOffSource) ⟨16, true, 2048, 0⟩ volume := by
  have hs := serves_cutOffSource
  obtain ⟨d, hparse, htype, -⟩ := parse_blankPrimary options.policy
  have hholds : Holds options (cutOff.readSector (framingFor 2048 0)) 0 d := by
    refine ⟨blankPrimary, Image.readSector_eq_ok.mpr
      ⟨0, byteOffset?_framingFor 2048 (by decide), ?_, slice_cutOff.symm⟩, hparse⟩
    rw [length_cutOff]
    decide
  refine ⟨_, ⟨by decide, by decide, by decide, by decide, by decide, ?_⟩,
    checkUnder_of_holds hconfirmation hs hholds htype, fun c hvalid hkey volume hother => ?_⟩
  · have hsix : blankPrimary.slice 0 6 = primaryStart := by decide +kernel
    rw [← hsix, ← slice_cutOff, Bytes.slice_slice _ (by decide)]
  · have hinside := add_six_le_of_start hvalid.start
    have hbehind := le_position_of_key_lt hvalid hkey
    rw [length_cutOff] at hinside
    have hend := add_le_length_of_checkUnder hs (by omega) hother
    rw [length_cutOff] at hend
    dsimp only [sectorSize] at hend
    omega

/-- The start behind the descriptor is seen, and comes first, but the image ends before its sector does.
The volume is found with the first sectors in front of the image. -/
theorem search_finds_first_cutOff :
    let run := (search { confirmation := .primaryDescriptor } 17).run.run cutOffSource
    (∃ c : Sighting, c.Valid cutOff 17 ∧ c.frameSize = 2048 ∧ c.position = 2048) ∧
      ∃ volume, run.1 = .ok (⟨2048, -32768⟩, volume) ∧ run.2.framing = ⟨2048, -32768⟩ := by
  dsimp only
  obtain ⟨hseen, hiff, hfound, -⟩ :=
    search_finds_first serves_cutOffSource { confirmation := .primaryDescriptor } 17
  have hbehind : cutOff.bytes.slice 2048 6 = primaryStart := by
    rw [Bytes.slice, cutOff, Image.inShortBlocks, List.drop_left' length_blankPrimary]
    exact List.take_left' rfl
  refine ⟨hseen (by decide) 2048 (by decide) 2048 (by decide) (by decide) hbehind, ?_⟩
  obtain ⟨volume, hfirst⟩ := exists_isFirst_cutOff { confirmation := .primaryDescriptor } rfl
  obtain ⟨⟨framing, volume⟩, hok⟩ := hiff.mpr ⟨_, hfirst.valid, _, hfirst.confirms⟩
  obtain ⟨⟨c, rfl, hc⟩, hframing⟩ := hfound framing volume hok
  obtain rfl := hfirst.unique hc
  have hstart : (Sighting.mk 16 true 2048 0).framing = ⟨2048, -32768⟩ := by decide
  rw [hstart] at hok hframing
  exact ⟨volume, hok, hframing⟩

end Ecma119.Volume
