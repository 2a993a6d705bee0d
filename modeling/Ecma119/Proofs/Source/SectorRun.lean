import Ecma119.Proofs.Device.BadBlocks
import Ecma119.Proofs.Source.Serving

/-!
# Sectors at once and one by one

Sectors that follow each other are asked for by one request. Where the framing leaves no gaps, that is
one read of the device, or of the blocks around the sectors; otherwise each sector is read on its own,
once the end of the last has been checked as if there were no gaps. On a device with bad blocks and a
wrong idea of its own size these ways could fail for different requests. `ComesTo` says of any work
with which values it succeeds, `Image.Offers` which bytes there are to be had. Bytes are to be had if
all their parts are (`Image.offers_add`), from which it follows that a run of sectors is read if each
of them is, and only then.
-/

namespace Ecma119

/-! ## What work comes to -/

section ComesTo

variable {ε σ α β : Type} {inv : σ → Prop} {P : α → Prop} {Q : β → Prop}

/-- From every state of the kind, the work succeeds with the values of which `P` holds and with no
others, and the state is of the kind afterwards. -/
def ComesTo (inv : σ → Prop) (P : α → Prop) (work : ExceptT ε (StateM σ) α) : Prop :=
  ∀ s, inv s → ∃ outcome s', work.run.run s = (outcome, s') ∧ inv s' ∧
    ∀ a, outcome = .ok a ↔ P a

namespace ComesTo

theorem pure (a : α) : ComesTo inv (· = a) (pure a : ExceptT ε (StateM σ) α) :=
  fun s hs => ⟨_, s, run_pure a, hs, fun b => by rw [Except.ok.injEq, eq_comm]⟩

theorem throw (failure : ε) :
    ComesTo inv (fun _ => False) (throw failure : ExceptT ε (StateM σ) α) :=
  fun s hs => ⟨_, s, run_throw failure, hs, fun a => by simp⟩

/-- The second part is asked only for the values that the first can have, from any state that is allowed.
-/
theorem bind {R : α → β → Prop} {work : ExceptT ε (StateM σ) α}
    {next : α → ExceptT ε (StateM σ) β} (hwork : ComesTo inv P work)
    (hnext : ∀ a, P a → ComesTo inv (R a) (next a)) :
    ComesTo inv (fun b => ∃ a, P a ∧ R a b) (work >>= next) := by
  intro s hs
  obtain ⟨outcome, s₁, hrun, hs₁, hok⟩ := hwork s hs
  cases outcome with
  | error failure =>
    refine ⟨_, s₁, run_bind_error hrun, hs₁, fun b => ?_⟩
    simp [← hok]
  | ok a =>
    obtain ⟨outcome, s₂, hrest, hs₂, hok'⟩ := hnext a ((hok a).mp rfl) s₁ hs₁
    refine ⟨outcome, s₂, (run_bind_ok hrun).trans hrest, hs₂, fun b => ?_⟩
    simp [← hok, hok']

/-- Only the values matter: work comes to whatever says the same of all of them. -/
theorem congr {P' : α → Prop} {work : ExceptT ε (StateM σ) α} (h : ComesTo inv P work)
    (hiff : ∀ a, P a ↔ P' a) : ComesTo inv P' work := by
  intro s hs
  obtain ⟨outcome, s', hrun, hs', hok⟩ := h s hs
  exact ⟨outcome, s', hrun, hs', fun a => (hok a).trans (hiff a)⟩

/-- Where what the second part comes to does not hang on the value of the first, the first decides
only whether there is anything. -/
theorem bind_const {work : ExceptT ε (StateM σ) α} {next : α → ExceptT ε (StateM σ) β}
    (hwork : ComesTo inv P work) (hsome : ∀ b, Q b → ∃ a, P a)
    (hnext : ∀ a, P a → ComesTo inv Q (next a)) : ComesTo inv Q (work >>= next) := by
  refine (hwork.bind hnext).congr fun b => ⟨fun ⟨_, _, hb⟩ => hb, fun hb => ?_⟩
  obtain ⟨a, ha⟩ := hsome b hb
  exact ⟨a, ha, hb⟩

/-- What the work comes to can be told from its result, as it comes to one thing only. -/
theorem run_eq_ok_iff {work : ExceptT ε (StateM σ) α} (h : ComesTo inv P work) {s : σ} (hs : inv s)
    (a : α) : (work.run.run s).1 = .ok a ↔ P a := by
  obtain ⟨outcome, s', hrun, -, hok⟩ := h s hs
  rw [hrun]
  exact hok a

end ComesTo

end ComesTo

/-! ## Bytes that are to be had -/

namespace Image

variable {image : Image} {bad : Nat → Prop} {count : Except String UInt64} {framing : Framing}
variable {offset length m n : Nat} {lsn : UInt32}

/-- The number of bytes that a device with this number of blocks is taken to have, of which 64 bits are
known. -/
def Claims (image : Image) (count : Except String UInt64) (length : Nat) : Prop :=
  ∃ blocks, count = .ok blocks ∧ length = blocks.toNat * image.blockSize % 2 ^ 64

structure Offers (image : Image) (bad : Nat → Prop) (count : Except String UInt64)
    (offset length : Nat) : Prop where
  claimed : ∃ claimed, image.Claims count claimed ∧ offset + length ≤ claimed
  readable : image.IsReadable bad offset length

/-- Bytes one behind the other are to be had if both parts of them are, and only then. -/
theorem offers_add :
    image.Offers bad count offset (m + n) ↔
      image.Offers bad count offset m ∧ image.Offers bad count (offset + m) n := by
  constructor
  · rintro ⟨⟨claimed, hclaimed, hend⟩, hreadable⟩
    obtain ⟨hfirst, hlater⟩ := isReadable_add.mp hreadable
    exact ⟨⟨⟨claimed, hclaimed, by omega⟩, hfirst⟩, ⟨⟨claimed, hclaimed, by omega⟩, hlater⟩⟩
  · rintro ⟨⟨-, hfirst⟩, ⟨⟨claimed, hclaimed, hend⟩, hlater⟩⟩
    exact ⟨⟨claimed, hclaimed, by omega⟩, isReadable_add.mpr ⟨hfirst, hlater⟩⟩

/-- Pieces one behind the other are to be had if each of them is, and then all at once. -/
theorem offers_pieces {number size : Nat} :
    image.Offers bad count offset ((number + 1) * size) ↔
      ∀ index < number + 1, image.Offers bad count (offset + index * size) size := by
  induction number with
  | zero => simp
  | succ number ih =>
    rw [Nat.succ_mul, offers_add, ih, ← Nat.forall_lt_succ_right]

/-- The sector is to be had, and these are its bytes: it starts in the image, lies in what the device
claims to have, and is in blocks that can be read. -/
def IsSector (image : Image) (bad : Nat → Prop) (count : Except String UInt64) (framing : Framing)
    (lsn : UInt32) (sector : Bytes) : Prop :=
  ∃ offset, framing.byteOffset? lsn = some offset ∧
    image.Offers bad count offset sectorSize ∧ sector = image.bytes.slice offset sectorSize

/-- What is to be had as a sector is a whole one. -/
theorem IsSector.length_eq {sector : Bytes} (h : image.IsSector bad count framing lsn sector) :
    sector.length = sectorSize := by
  obtain ⟨offset, -, hoffers, rfl⟩ := h
  exact Bytes.length_slice (hoffers.readable.add_le_length sectorSize_pos)

/-- A sector with a bad block in it is not to be had, whatever its bytes in the image are. -/
theorem not_isSector_of_bad {block : Nat} {sector : Bytes}
    (hoffset : framing.byteOffset? lsn = some offset) (hbad : bad block)
    (hstart : block * image.blockSize < offset + sectorSize)
    (hstop : offset < (block + 1) * image.blockSize) :
    ¬ image.IsSector bad count framing lsn sector := by
  rintro ⟨offset', hoffset', hoffers, -⟩
  cases hoffset.symm.trans hoffset'
  exact (hoffers.readable block hstart hstop).2 hbad

/-- The sectors are to be had each, and these are the bytes of all. -/
def AreSectors (image : Image) (bad : Nat → Prop) (count : Except String UInt64) (framing : Framing)
    (lsn : UInt32) (number : Nat) (bytes : Bytes) : Prop :=
  ∃ sectors : Nat → Bytes,
    (∀ index < number, image.IsSector bad count framing (lsn + UInt32.ofNat index) (sectors index)) ∧
      bytes = Bytes.joined sectors number

/-- A device claims one number of bytes at most. -/
theorem Claims.unique {claimed claimed' : Nat} (h : image.Claims count claimed)
    (h' : image.Claims count claimed') : claimed = claimed' := by
  obtain ⟨blocks, hcount, rfl⟩ := h
  obtain ⟨blocks', hcount', rfl⟩ := h'
  cases hcount.symm.trans hcount'
  rfl

end Image

/-! ## Sources -/

/-- The destination is filled with the bytes of which `P` holds, and where there are none it is not
filled. -/
def Fill.Gives (P : Bytes → Prop) (fill : Fill) : Prop :=
  ∀ bytes, fill.outcome = .ok () ∧ fill.destination = bytes ↔ P bytes

namespace Fill.Gives

variable {P : Bytes → Prop} {offered : Prop} {fill : Fill} {bytes : Bytes}

/-- A filling that fails gives nothing, which is right where there is nothing to be given. -/
theorem error (h : ∀ bytes, ¬ P bytes) (failure : Error) (left : Bytes) :
    Gives P ⟨.error failure, left⟩ :=
  fun bytes => ⟨fun hfilled => (nomatch hfilled.1), fun hbytes => absurd hbytes (h bytes)⟩

/-- Where the bytes are known, it is enough to know when there are any: a filling gives them or fails. -/
theorem of_outcome (hok : fill.outcome = .ok () ↔ offered)
    (hbytes : fill.outcome = .ok () → fill.destination = bytes) :
    fill.Gives (fun b => offered ∧ b = bytes) := by
  intro b
  rw [← hok]
  refine and_congr_right fun hfilled => ?_
  rw [hbytes hfilled, eq_comm]

/-- Conditions that say the same of all bytes are met by the same fillings. -/
theorem congr {P' : Bytes → Prop} (h : fill.Gives P) (hiff : ∀ bytes, P bytes ↔ P' bytes) :
    fill.Gives P' :=
  fun bytes => (h bytes).trans (hiff bytes)

end Fill.Gives

namespace SectorSource

variable {δ : Type} [BlockDevice δ] {image : Image} {bad : Nat → Prop} {count : Except String UInt64}
variable {framing : Framing} {s : SectorSource δ}

/-- The source is on a device that gives the image around its bad blocks. -/
structure ReadsAround (image : Image) (bad : Nat → Prop) (count : Except String UInt64)
    (framing : Framing) (s : SectorSource δ) : Prop where
  held : image.HeldAround bad count s.device
  framing_eq : s.framing = framing
  claims : ∀ length ∈ s.knownLength, image.Claims count length.toNat

/-- A source on a device that has the image around its bad blocks reads around them, under any framing.
-/
theorem readsAround_ofDevice {device : δ} (h : image.HeldAround bad count device)
    (framing : Framing) : (ofDevice device framing).ReadsAround image bad count framing :=
  ⟨h, rfl, fun _ hlength => nomatch hlength⟩

theorem comesTo_getFraming :
    ComesTo (ReadsAround image bad count framing) (· = framing)
      (getFraming : SourceM δ Framing) := by
  intro s hs
  refine ⟨.ok s.framing, s, by rw [getFraming, run_bind_ok run_get, run_pure], hs, fun a => ?_⟩
  rw [hs.framing_eq, Except.ok.injEq, eq_comm]

/-- Looking up where a sector lies comes to its offset, if there is one. -/
theorem comesTo_sectorOffset (lsn : UInt32) :
    ComesTo (ReadsAround image bad count framing) (framing.byteOffset? lsn = some ·)
      (sectorOffset lsn : SourceM δ Nat) := by
  intro s hs
  refine ⟨_, s, run_sectorOffset s lsn, hs, fun offset => ?_⟩
  rw [hs.framing_eq, Image.sectorOffset_eq_ok]

/-- The length is what the device claims, or it is not told and the work fails. -/
theorem comesTo_byteLength :
    ComesTo (ReadsAround image bad count framing) (fun length => image.Claims count length.toNat)
      (byteLength : SourceM δ UInt64) := by
  intro s hs
  have htold {length : UInt64} (h : image.Claims count length.toNat) (a : UInt64) :
      (Except.ok length : Except Error UInt64) = .ok a ↔ image.Claims count a.toNat := by
    rw [Except.ok.injEq]
    exact ⟨fun heq => heq ▸ h, fun h' => UInt64.toNat_inj.mp (h.unique h')⟩
  cases hknown : s.knownLength with
  | some length =>
    exact ⟨_, s, run_byteLength_of_known hknown, hs, htold (hs.claims length hknown)⟩
  | none =>
    have hanswered := hs.held.answered
    cases count with
    | error message =>
      exact ⟨_, s, run_byteLength_of_error hknown hanswered.blockCount_eq, hs,
        fun a => by simp [Image.Claims]⟩
    | ok blocks =>
      have hclaims : image.Claims (.ok blocks)
          (blocks * (BlockDevice.blockSize s.device).toUInt64).toNat :=
        ⟨blocks, rfl, by rw [UInt64.toNat_mul, UInt32.toNat_toUInt64, hanswered.blockSize_eq]⟩
      rw [run_byteLength_of_blockCount hknown hanswered.blockCount_eq]
      refine ⟨_, _, rfl, ⟨hs.held, hs.framing_eq, fun length hlength => ?_⟩, htold hclaims⟩
      rwa [← Option.some.inj hlength]

/-! ## Filling a destination -/

/-- Whole blocks are filled in exactly where all of them can be read: they are in the image, and none is
bad. -/
theorem ReadsAround.run_fillBlocks (hs : s.ReadsAround image bad count framing) (first : Nat)
    {destination : Bytes} (hne : destination ≠ []) (hwhole : image.blockSize ∣ destination.length) :
    ∃ fill s', (fillBlocks first destination).run s = (fill, s') ∧
      s'.ReadsAround image bad count framing ∧
      (fill.outcome = .ok () ↔
        image.IsReadable bad (first * image.blockSize) destination.length) ∧
      (fill.outcome = .ok () →
        fill.destination = image.bytes.slice (first * image.blockSize) destination.length) := by
  obtain ⟨hok, hbytes, hnext⟩ := hs.held.answered.readBlocks first destination hne hwhole
  refine ⟨_, _, run_fillBlocks_of_read rfl, ⟨hnext, hs.framing_eq, hs.claims⟩, ?_⟩
  exact ⟨mapError_eq_ok.trans hok, fun h => hbytes (mapError_eq_ok.mp h)⟩

/-- The blocks around bytes are filled in where the bytes can be read, and have them in them. -/
theorem ReadsAround.run_fillAround (hs : s.ReadsAround image bad count framing) (offset : Nat)
    {length : Nat} (hlength : 0 < length) :
    let first := offset / image.blockSize
    let blocks := (offset + length + image.blockSize - 1) / image.blockSize - first
    ∃ fill s', (fillBlocks first (Bytes.zeros (blocks * image.blockSize))).run s = (fill, s') ∧
      s'.ReadsAround image bad count framing ∧
      (fill.outcome = .ok () ↔ image.IsReadable bad offset length) ∧
      (fill.outcome = .ok () → fill.destination.slice (offset - first * image.blockSize) length =
        image.bytes.slice offset length) := by
  intro first blocks
  obtain ⟨hstart, hstop⟩ :
      first * image.blockSize ≤ offset ∧
        offset + length ≤ first * image.blockSize + blocks * image.blockSize :=
    blocksAround_cover image.blockSize_pos offset length
  have hzeros : Bytes.zeros (blocks * image.blockSize) ≠ [] := by
    apply List.ne_nil_of_length_pos
    rw [Bytes.length_zeros]
    omega
  obtain ⟨fill, s', hfill, hs', hok, hbytes⟩ := hs.run_fillBlocks first hzeros
    (by rw [Bytes.length_zeros]; exact Nat.dvd_mul_left _ _)
  rw [Bytes.length_zeros] at hok hbytes
  refine ⟨fill, s', hfill, hs', hok.trans (Image.isReadable_around hlength), fun hfilled => ?_⟩
  rw [hbytes hfilled, Bytes.slice_slice _ (by omega), Nat.add_sub_cancel' hstart]

/-- A destination is filled where its bytes are to be had, in whole blocks or not. -/
theorem ReadsAround.run_fillBytes (hs : s.ReadsAround image bad count framing) (offset : Nat)
    {destination : Bytes} (hne : destination ≠ []) :
    ∃ fill s', (fillBytes offset destination).run s = (fill, s') ∧
      s'.ReadsAround image bad count framing ∧
      fill.Gives fun bytes => image.Offers bad count offset destination.length ∧
        bytes = image.bytes.slice offset destination.length := by
  have hlength : 0 < destination.length := List.length_pos_iff.mpr hne
  have hsize := hs.held.answered.blockSize_eq
  obtain ⟨outcome, s₁, hrun, hs₁, hclaims⟩ := (comesTo_byteLength (δ := δ)) s hs
  cases outcome with
  | error failure =>
    refine ⟨_, s₁, fillBytes_error hne hrun, hs₁, .error (fun bytes hoffers => ?_) failure _⟩
    obtain ⟨_, ⟨blocks, hcount, rfl⟩, -⟩ := hoffers.1.claimed
    have hclaimed : image.Claims count (blocks.toNat * image.blockSize % 2 ^ 64) :=
      ⟨blocks, hcount, rfl⟩
    rw [← UInt64.toNat_ofNat'] at hclaimed
    cases (hclaims _).mpr hclaimed
  | ok length =>
    have hclaimed : image.Claims count length.toNat := (hclaims length).mp rfl
    by_cases hend : offset + destination.length ≤ length.toNat
    · have hoffers : image.Offers bad count offset destination.length ↔
          image.IsReadable bad offset destination.length :=
        ⟨fun h => h.readable, fun h => ⟨⟨_, hclaimed, hend⟩, h⟩⟩
      rw [hoffers]
      by_cases hwhole : image.blockSize ∣ offset ∧ image.blockSize ∣ destination.length
      · rw [fillBytes_whole hne hrun hend (hsize ▸ hwhole.1) (hsize ▸ hwhole.2), hsize]
        obtain ⟨fill, s₂, hfill, hs₂, hok, hbytes⟩ :=
          hs₁.run_fillBlocks (offset / image.blockSize) hne hwhole.2
        rw [Nat.div_mul_cancel hwhole.1] at hok hbytes
        exact ⟨fill, s₂, hfill, hs₂, .of_outcome hok hbytes⟩
      · obtain ⟨⟨outcome, bytes⟩, s₂, hfill, hs₂, hok, hbytes⟩ := hs₁.run_fillAround offset hlength
        rw [fillBytes_around hne hrun hend (by rw [hsize]; exact hwhole)
          (by rw [hsize]; exact hfill), hsize]
        cases outcome with
        | error failure =>
          exact ⟨_, s₂, rfl, hs₂, .error (fun _ h => nomatch hok.mpr h.1) failure _⟩
        | ok => exact ⟨_, s₂, rfl, hs₂, .of_outcome hok hbytes⟩
    · refine ⟨_, s₁, fillBytes_past hne hrun (Nat.not_le.mp hend), hs₁,
        .error (fun bytes hoffers => hend ?_) _ _⟩
      obtain ⟨claimed, hclaimed', hend'⟩ := hoffers.1.claimed
      rwa [hclaimed.unique hclaimed']

/-- A new destination is filled as any is, and what is in it then is the value. -/
theorem comesTo_filled {length : Nat} {fill : Bytes → StateM (SectorSource δ) Fill}
    {P : Bytes → Prop}
    (hfill : ∀ s : SectorSource δ, s.ReadsAround image bad count framing →
      ∃ filled s', (fill (Bytes.zeros length)).run s = (filled, s') ∧
        s'.ReadsAround image bad count framing ∧ filled.Gives P) :
    ComesTo (ReadsAround image bad count framing) P (filled length fill) := by
  intro s hs
  obtain ⟨⟨outcome, destination⟩, s', hrun, hs', hgives⟩ := hfill s hs
  rw [filled, run_bind_ok (run_liftState hrun)]
  cases outcome with
  | ok => exact ⟨_, s', run_pure _, hs', fun b => by simp [← hgives b]⟩
  | error failure => exact ⟨_, s', run_throw failure, hs', fun b => by simp [← hgives b]⟩

/-- Bytes are read if they are to be had: inside what the device claims and in no bad block. -/
theorem comesTo_readBytes (offset : Nat) {length : Nat} (hlength : 0 < length) :
    ComesTo (ReadsAround image bad count framing)
      (fun bytes => image.Offers bad count offset length ∧ bytes = image.bytes.slice offset length)
      (readBytes offset length : SourceM δ Bytes) := by
  refine comesTo_filled fun s hs => ?_
  have hne : Bytes.zeros length ≠ [] :=
    List.ne_nil_of_length_pos (by rw [Bytes.length_zeros]; exact hlength)
  have hfill := hs.run_fillBytes offset hne
  rwa [Bytes.length_zeros] at hfill

/-! ## Sectors -/

/-- A sector is filled in if it is to be had, from where the framing has it. -/
theorem ReadsAround.run_fillSector (hs : s.ReadsAround image bad count framing) (lsn : UInt32)
    {destination : Bytes} (hlength : destination.length = sectorSize) :
    ∃ fill s', (fillSector lsn destination).run s = (fill, s') ∧
      s'.ReadsAround image bad count framing ∧
      fill.Gives (image.IsSector bad count framing lsn) := by
  rw [fillSector, run_stateBind (run_sectorOffset s lsn), hs.framing_eq, Image.sectorOffset]
  cases hplace : framing.byteOffset? lsn with
  | none => exact ⟨_, s, rfl, hs, .error (by simp [Image.IsSector, hplace]) _ _⟩
  | some offset =>
    have hne : destination ≠ [] := List.ne_nil_of_length_pos (by rw [hlength]; decide)
    obtain ⟨fill, s', hfill, hs', hgives⟩ := hs.run_fillBytes offset hne
    rw [hlength] at hgives
    exact ⟨fill, s', hfill, hs', hgives.congr fun bytes => by simp [Image.IsSector, hplace]⟩

/-- A sector is read if it is to be had, and what is read is then the sector of the image. -/
theorem comesTo_readSector (lsn : UInt32) :
    ComesTo (ReadsAround image bad count framing) (image.IsSector bad count framing lsn)
      (readSector lsn : SourceM δ Bytes) :=
  comesTo_filled fun _ hs => hs.run_fillSector lsn (Bytes.length_zeros sectorSize)

end SectorSource

namespace Image

variable {image : Image} {bad : Nat → Prop} {count : Except String UInt64} {framing : Framing}
variable {lsn : UInt32} {offset : Nat} {bytes : Bytes}

/-- A sector that is found is to be had if the device offers its bytes, and then it is what the image has
there. -/
theorem isSector_iff (hoffset : framing.byteOffset? lsn = some offset) :
    image.IsSector bad count framing lsn bytes ↔
      image.Offers bad count offset sectorSize ∧ bytes = image.bytes.slice offset sectorSize := by
  simp [IsSector, hoffset]

/-- A run of sectors is its first one and the run behind that, as they are read. -/
theorem areSectors_succ {number : Nat} :
    image.AreSectors bad count framing lsn (number + 1) bytes ↔
      ∃ sector, image.IsSector bad count framing lsn sector ∧
        ∃ rest, image.AreSectors bad count framing (lsn + 1) number rest ∧
          bytes = sector ++ rest := by
  constructor
  · rintro ⟨sectors, hsectors, rfl⟩
    refine ⟨sectors 0, ?_, _, ⟨fun index => sectors (index + 1), fun index hindex => ?_, rfl⟩,
      Bytes.joined_succ_front ..⟩
    · simpa using hsectors 0 (Nat.succ_pos number)
    · rw [← lsn_add_succ]
      exact hsectors (index + 1) (Nat.succ_lt_succ hindex)
  · rintro ⟨sector, hsector, _, ⟨sectors, hsectors, rfl⟩, rfl⟩
    refine ⟨Bytes.pieceThen sector sectors, fun index hindex => ?_,
      (Bytes.joined_pieceThen sector sectors number).symm⟩
    cases index with
    | zero => simpa [Bytes.pieceThen] using hsector
    | succ index =>
      rw [lsn_add_succ]
      exact hsectors index (Nat.lt_of_succ_lt_succ hindex)

/-- Where sectors are to be had each, each of them is found at some offset. -/
theorem AreSectors.isSome {number : Nat}
    (h : image.AreSectors bad count framing lsn number bytes) {index : Nat} (hindex : index < number) :
    (framing.byteOffset? (lsn + UInt32.ofNat index)).isSome := by
  obtain ⟨sectors, hsectors, -⟩ := h
  obtain ⟨offset, hoffset, -⟩ := hsectors index hindex
  exact Option.isSome_of_eq_some hoffset

/-- Where sectors are to be had each, the device claims to have all of them as if there were no
gaps. -/
theorem AreSectors.le_claimed {number : Nat} (hframe : sectorSize ≤ framing.frameSize.toNat)
    (h : image.AreSectors bad count framing lsn (number + 1) bytes)
    (hlast : lsn.toNat + (number + 1) ≤ 2 ^ 32) (hoffset : framing.byteOffset? lsn = some offset)
    {claimed : Nat} (hclaimed : image.Claims count claimed) :
    offset + (number + 1) * sectorSize ≤ claimed := by
  have hplace := Framing.byteOffset?_add_index hlast (fun index hindex => h.isSome hindex) hoffset
    number (Nat.lt_succ_self number)
  obtain ⟨sectors, hsectors, -⟩ := h
  have hsector := (isSector_iff hplace).mp (hsectors number (Nat.lt_succ_self _))
  obtain ⟨claimed', hclaimed', hend⟩ := hsector.1.claimed
  have hgaps : number * sectorSize ≤ number * framing.frameSize.toNat := Nat.mul_le_mul_left _ hframe
  rw [hclaimed.unique hclaimed', Nat.succ_mul]
  generalize sectorSize = size at hgaps hend ⊢
  omega

/-- The bytes of a run of sectors as they are asked for: without gaps they are one stretch of bytes from
the first sector on, however far the last one lies. -/
def AreRun (image : Image) (bad : Nat → Prop) (count : Except String UInt64) (framing : Framing)
    (lsn : UInt32) (number : Nat) (bytes : Bytes) : Prop :=
  if framing.isContiguous then
    ∃ offset, framing.byteOffset? lsn = some offset ∧
      image.Offers bad count offset (number * sectorSize) ∧
      bytes = image.bytes.slice offset (number * sectorSize)
  else image.AreSectors bad count framing lsn number bytes

/-- Sectors without gaps of which the first and the last are found are one stretch of bytes, to be had as
a whole. -/
theorem areSectors_iff_of_isContiguous (hcontiguous : framing.isContiguous = true) {number : Nat}
    (hlast : lsn.toNat + (number + 1) ≤ 2 ^ 32) (hoffset : framing.byteOffset? lsn = some offset)
    (hfound : (framing.byteOffset? (lsn + UInt32.ofNat number)).isSome) :
    image.AreSectors bad count framing lsn (number + 1) bytes ↔
      image.Offers bad count offset ((number + 1) * sectorSize) ∧
        bytes = image.bytes.slice offset ((number + 1) * sectorSize) := by
  have hsector (index : Nat) (hindex : index < number + 1) (sector : Bytes) :
      image.IsSector bad count framing (lsn + UInt32.ofNat index) sector ↔ _ :=
    isSector_iff (Framing.byteOffset?_of_isContiguous hcontiguous hlast hoffset hfound
      (Nat.le_of_lt_succ hindex))
  rw [offers_pieces, Bytes.slice_eq_joined]
  constructor
  · rintro ⟨sectors, hsectors, rfl⟩
    have hpieces := fun index hindex => (hsector index hindex _).mp (hsectors index hindex)
    exact ⟨fun index hindex => (hpieces index hindex).1,
      Bytes.joined_congr fun index hindex => (hpieces index hindex).2⟩
  · rintro ⟨hoffers, rfl⟩
    exact ⟨_, fun index hindex => (hsector index hindex _).mpr ⟨hoffers index hindex, rfl⟩, rfl⟩

/-- Sectors are to be had each if they are as a run, and the last of them is found. -/
theorem areSectors_iff {number : Nat} (hlast : lsn.toNat + (number + 1) ≤ 2 ^ 32) :
    image.AreSectors bad count framing lsn (number + 1) bytes ↔
      image.AreRun bad count framing lsn (number + 1) bytes ∧
        (framing.byteOffset? (lsn + UInt32.ofNat number)).isSome := by
  rw [AreRun]
  split
  · next hcontiguous =>
    constructor
    · intro h
      have hfound := h.isSome (Nat.lt_succ_self number)
      obtain ⟨offset, hoffset⟩ := Option.isSome_iff_exists.mp (h.isSome (Nat.succ_pos number))
      rw [show lsn + UInt32.ofNat 0 = lsn from UInt32.add_zero lsn] at hoffset
      exact ⟨⟨offset, hoffset,
        (areSectors_iff_of_isContiguous hcontiguous hlast hoffset hfound).mp h⟩, hfound⟩
    · rintro ⟨⟨offset, hoffset, hrun⟩, hfound⟩
      exact (areSectors_iff_of_isContiguous hcontiguous hlast hoffset hfound).mpr hrun
  · exact (and_iff_left_of_imp fun h => h.isSome (Nat.lt_succ_self number)).symm

/-- The first sector of a run that is to be had is found, and the device claims to have as many bytes
behind its start as the sectors of the run. -/
theorem AreRun.claimed {number : Nat} (hframe : sectorSize ≤ framing.frameSize.toNat)
    (h : image.AreRun bad count framing lsn (number + 1) bytes)
    (hlast : lsn.toNat + (number + 1) ≤ 2 ^ 32) :
    ∃ offset claimed, framing.byteOffset? lsn = some offset ∧ image.Claims count claimed ∧
      offset + (number + 1) * sectorSize ≤ claimed := by
  rw [AreRun] at h
  split at h
  · obtain ⟨offset, hoffset, hoffers, -⟩ := h
    obtain ⟨claimed, hclaimed, hend⟩ := hoffers.claimed
    exact ⟨offset, claimed, hoffset, hclaimed, hend⟩
  · obtain ⟨_, ⟨offset, hoffset, hoffers, -⟩, -⟩ := areSectors_succ.mp h
    obtain ⟨claimed, hclaimed, -⟩ := hoffers.claimed
    exact ⟨offset, claimed, hoffset, hclaimed, h.le_claimed hframe hlast hoffset hclaimed⟩

/-- Where the device claims no more than `2 ^ 63` bytes, the last sector of a run that is to be had is
found. -/
theorem AreRun.isSome {number : Nat}
    (h : image.AreRun bad count framing lsn (number + 1) bytes)
    (hlast : lsn.toNat + (number + 1) ≤ 2 ^ 32)
    (hclaims : ∀ claimed, image.Claims count claimed → claimed ≤ 2 ^ 63) :
    (framing.byteOffset? (lsn + UInt32.ofNat number)).isSome := by
  rw [AreRun] at h
  split at h
  · next hcontiguous =>
    obtain ⟨offset, hoffset, hoffers, -⟩ := h
    obtain ⟨claimed, hclaimed, hend⟩ := hoffers.claimed
    have hle := hclaims claimed hclaimed
    have hsize : framing.frameSize.toNat = sectorSize := by
      simpa [Framing.isContiguous] using hcontiguous
    have hplace : framing.place (lsn + UInt32.ofNat number) =
        framing.place lsn + (number * 2048 : Nat) := by
      rw [Framing.place_add hlast, hsize]
    have hfound : framing.byteOffset? (lsn + UInt32.ofNat number) = some (offset + number * 2048) :=
      (Framing.byteOffset?_add hoffset hplace (by omega)).mpr
        ⟨rfl, by dsimp only [sectorSize] at hend; omega⟩
    exact Option.isSome_of_eq_some hfound
  · exact h.isSome (Nat.lt_succ_self number)

end Image

namespace SectorSource

variable {δ : Type} [BlockDevice δ] {image : Image} {bad : Nat → Prop} {count : Except String UInt64}
variable {framing : Framing}

/-- Sectors are read one by one if each of them is to be had, by induction on how many there are. -/
theorem comesTo_readEachSector (lsn : UInt32) (number : Nat) :
    ComesTo (ReadsAround image bad count framing) (image.AreSectors bad count framing lsn number)
      (readEachSector lsn number : SourceM δ Bytes) := by
  induction number generalizing lsn with
  | zero => exact (ComesTo.pure []).congr fun bytes => by simp [Image.AreSectors, Bytes.joined]
  | succ number ih =>
    rw [readEachSector]
    refine ((comesTo_readSector lsn).bind fun sector _ => (ih (lsn + 1)).bind fun rest _ =>
      ComesTo.pure (sector ++ rest)).congr fun bytes => ?_
    rw [Image.areSectors_succ]

/-- A run of sectors is read if it is to be had, by one read or by many, and only then. -/
theorem comesTo_readSectors (hframe : sectorSize ≤ framing.frameSize.toNat) {lsn number : UInt32}
    (hnumber : 0 < number.toNat) (hlast : lsn.toNat + number.toNat ≤ 2 ^ 32) :
    ComesTo (ReadsAround image bad count framing)
      (image.AreRun bad count framing lsn number.toNat)
      (readSectors lsn number : SourceM δ Bytes) := by
  obtain ⟨before, hbefore⟩ := Nat.exists_eq_succ_of_ne_zero (Nat.ne_of_gt hnumber)
  rw [readSectors, hbefore]
  rw [hbefore] at hlast
  refine (comesTo_sectorOffset lsn).bind_const (fun bytes h => ?_) fun offset hoffset => ?_
  · obtain ⟨offset, -, hoffset, -⟩ := h.claimed hframe hlast
    exact ⟨offset, hoffset⟩
  refine comesTo_byteLength.bind_const (fun bytes h => ?_) fun length hlength => ?_
  · obtain ⟨-, _, -, ⟨blocks, hcount, rfl⟩, -⟩ := h.claimed hframe hlast
    exact ⟨.ofNat (blocks.toNat * image.blockSize), blocks, hcount, UInt64.toNat_ofNat' ..⟩
  dsimp only
  split
  -- The request is refused, and the last of the sectors would go past the end.
  · next hpast =>
    refine (ComesTo.throw _).bind_const (fun bytes h => ?_) fun _ h => h.elim
    obtain ⟨offset', claimed, hoffset', hclaimed, hend⟩ := h.claimed hframe hlast
    cases hoffset.symm.trans hoffset'
    rw [hclaimed.unique hlength] at hend
    exact absurd hend (Nat.not_le.mpr hpast)
  · refine comesTo_getFraming.bind_const (fun _ _ => ⟨_, rfl⟩) fun _ hframing => ?_
    subst hframing
    split
    · next hcontiguous =>
      refine (comesTo_readBytes offset ?_).congr fun bytes => ?_
      · exact Nat.mul_pos (Nat.succ_pos before) sectorSize_pos
      · rw [Image.AreRun, if_pos hcontiguous]
        refine ⟨fun h => ⟨offset, hoffset, h⟩, ?_⟩
        rintro ⟨offset', hoffset', h⟩
        cases hoffset.symm.trans hoffset'
        exact h
    · next hgaps =>
      refine (comesTo_readEachSector lsn (before + 1)).congr fun bytes => ?_
      rw [Image.AreRun, if_neg hgaps]

/-- The frames of sectors 1 to 4, without what is in front of the data of sector 1. -/
def rawFrames : Image := .inShortBlocks (Bytes.zeros 10240)

end SectorSource

end Ecma119
