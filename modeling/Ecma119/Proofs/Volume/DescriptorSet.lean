import Ecma119.Proofs.Source.Showing
import Ecma119.Proofs.Volume.DescriptorRoundTrip
import Ecma119.Volume.DescriptorSet

/-!
# What a descriptor set is

Reading a volume is a loop over the sectors behind the primary descriptor that keeps one descriptor
and can be left in many ways. `EndsAt` tells instead which sectors a descriptor set has, `Describes`
which volume they describe, and `read_describes` says that the loop reads such sets and no others.
One turn of the loop is `run_passed`, `run_terminated` or a failure (`terminated_or_passed`);
`KeptBefore` is what it carries from turn to turn.
-/

namespace Ecma119.Volume

/-! ## Sectors of a descriptor set -/

/-- The sector at a distance behind the primary descriptor. -/
def setLsn (distance : Nat) : UInt32 := descriptorSetStart + UInt32.ofNat distance

theorem setLsn_add_one (distance : Nat) : setLsn distance + 1 = setLsn (distance + 1) := by
  rw [setLsn, setLsn, UInt32.ofNat_add, UInt32.add_assoc]
  rfl

section Sectors

variable (options : MountOptions) (sector : UInt32 → Except Error Bytes)

/-- What reading the sector at a distance behind the primary descriptor comes to. -/
def setSector (distance : Nat) : Except Error Bytes := sector (setLsn distance)

/-- The sector starts with the head of a descriptor of this type and version. -/
def HasHead (distance : Nat) (type : DescriptorType) (version : UInt8) : Prop :=
  ∃ bytes, setSector sector distance = .ok bytes ∧
    (DescriptorHeader.mk type.code version).encode <+: bytes

/-- The sector is read as a descriptor. -/
def Holds (distance : Nat) (d : VolumeDescriptor) : Prop :=
  ∃ bytes, setSector sector distance = .ok bytes ∧
    VolumeDescriptor.parse options.policy bytes = .ok d

/-- The descriptor announces a Joliet level that is made use of. -/
def IsEnabled (d : VolumeDescriptor) : Prop :=
  ∃ level, d.jolietLevel? = some level ∧ options.extensions.hasJoliet level = true

/-- The sector has a descriptor whose Joliet level is made use of. -/
def EnabledAt (distance : Nat) : Prop := ∃ d, Holds options sector distance d ∧ IsEnabled options d

/-- No sector between the primary descriptor and this one has a descriptor whose Joliet level is
made use of. -/
def NoneBefore (distance : Nat) : Prop :=
  ∀ i, 1 ≤ i → i < distance → ¬ EnabledAt options sector i

/-- The set goes on behind the sector. It has the head of a descriptor of a known type that is not a
terminator; a supplementary descriptor is of version 1 or 2, and it can be read if the Joliet
descriptor is still to be found. -/
def Passes (distance : Nat) : Prop :=
  ∃ type version, HasHead sector distance type version ∧ type ≠ .terminator ∧
    (type = .supplementary → (version = 1 ∨ version = 2) ∧
      (NoneBefore options sector distance → ∃ d, Holds options sector distance d))

/-- The sector has a terminator's head. -/
def Terminates (distance : Nat) : Prop :=
  ∃ version, HasHead sector distance .terminator version

/-- The set ends with a terminator in one of the 64 sectors behind the primary descriptor. -/
structure EndsAt (stop : Nat) : Prop where
  pos : 1 ≤ stop
  le : stop ≤ 64
  terminates : Terminates sector stop
  passes : ∀ i, 1 ≤ i → i < stop → Passes options sector i

/-- Of the sectors before this one, the first with a descriptor whose Joliet level is made use of
has the one that is kept. -/
def KeptBefore (distance : Nat) : Option VolumeDescriptor → Prop
  | some d => ∃ i, 1 ≤ i ∧ i < distance ∧ Holds options sector i d ∧ IsEnabled options d ∧
      NoneBefore options sector i
  | none => NoneBefore options sector distance

/-- Where Rock Ridge is made use of, the root directory starts with padding or with a record. -/
def RootReads (primary : VolumeDescriptor) : Prop :=
  options.extensions.hasRockRidge = true →
    ∃ bytes, sector primary.rootLsn = .ok bytes ∧
      (bytes.head? = some 0 ∨ ∃ r, DirectoryRecord.parse options.policy bytes = .ok r)

/-- The volume that is described by the sectors up to the terminator. -/
structure Describes (stop : Nat) (v : Volume) : Prop where
  primary : Holds options sector 0 v.primary ∧ v.primary.type = .primary
  joliet : KeptBefore options sector stop v.joliet
  jolietLevel : (v.joliet = none ∧ v.jolietLevel = 0) ∨
    ∃ d level, v.joliet = some d ∧ d.jolietLevel? = some level ∧ v.jolietLevel = level.number
  hasRockRidge : v.hasRockRidge = true ↔ options.extensions.hasRockRidge = true ∧
    ∃ bytes r, sector v.primary.rootLsn = .ok bytes ∧
      DirectoryRecord.parse options.policy bytes = .ok r ∧ RockRidge.isPresent r.systemUse = true

end Sectors

section Facts

variable {options : MountOptions} {sector : UInt32 → Except Error Bytes} {distance : Nat}

/-- A sector has one head, and so one type of descriptor, as each type has one code. -/
theorem HasHead.unique {type type' : DescriptorType} {version version' : UInt8}
    (h : HasHead sector distance type version) (h' : HasHead sector distance type' version') :
    type = type' := by
  obtain ⟨bytes, hbytes, hhead⟩ := h
  obtain ⟨bytes', hbytes', hhead'⟩ := h'
  rw [hbytes] at hbytes'
  cases hbytes'
  have hparse := DescriptorHeader.parse_eq_ok.mpr hhead
  rw [DescriptorHeader.parse_eq_ok.mpr hhead'] at hparse
  have hcode : type'.code = type.code := congrArg DescriptorHeader.typeCode (Except.ok.inj hparse)
  rw [← DescriptorType.ofCode?_eq_some, DescriptorType.ofCode?_code] at hcode
  exact (Option.some.inj hcode).symm

/-- A descriptor is read behind a head of its type, in a sector that can be read. -/
theorem Holds.hasHead {d : VolumeDescriptor} (h : Holds options sector distance d) :
    ∃ version, HasHead sector distance d.type version := by
  obtain ⟨bytes, hbytes, hparse⟩ := h
  obtain ⟨version, hhead⟩ := VolumeDescriptor.head_of_parse hparse
  exact ⟨version, bytes, hbytes, hhead⟩

theorem IsEnabled.type_eq {d : VolumeDescriptor} (h : IsEnabled options d) :
    d.type = .supplementary := by
  obtain ⟨level, hlevel, -⟩ := h
  rw [VolumeDescriptor.jolietLevel?] at hlevel
  split at hlevel
  · assumption
  · cases hlevel

/-- Descriptors of other types do not announce Joliet, and are passed over. -/
theorem HasHead.not_enabledAt {type : DescriptorType} {version : UInt8}
    (h : HasHead sector distance type version) (htype : type ≠ .supplementary) :
    ¬ EnabledAt options sector distance := by
  rintro ⟨d, hholds, henabled⟩
  obtain ⟨version', h'⟩ := hholds.hasHead
  exact htype ((h.unique h').trans henabled.type_eq)

/-! ## The descriptor that is kept -/

/-- Where none is enabled before a sector, nor in that, none is before the next one. -/
theorem NoneBefore.succ (h : NoneBefore options sector distance)
    (hnot : ¬ EnabledAt options sector distance) : NoneBefore options sector (distance + 1) := by
  intro i hpos hlt
  rcases Nat.lt_succ_iff_lt_or_eq.mp hlt with hbefore | rfl
  · exact h i hpos hbefore
  · exact hnot

/-- A descriptor that is kept stays: those that come later do not take its place. -/
theorem KeptBefore.some_succ {d : VolumeDescriptor}
    (h : KeptBefore options sector distance (some d)) :
    KeptBefore options sector (distance + 1) (some d) := by
  obtain ⟨i, hpos, hlt, hfirst⟩ := h
  exact ⟨i, hpos, by omega, hfirst⟩

/-- A sector without a Joliet descriptor that is made use of changes nothing of what is kept. -/
theorem KeptBefore.succ {kept : Option VolumeDescriptor}
    (h : KeptBefore options sector distance kept) (hnot : ¬ EnabledAt options sector distance) :
    KeptBefore options sector (distance + 1) kept := by
  cases kept with
  | none => exact NoneBefore.succ h hnot
  | some d => exact h.some_succ

/-- Where one is kept, one has been found; so where there is none, none is kept. -/
theorem KeptBefore.eq_none_of_noneBefore {kept : Option VolumeDescriptor}
    (h : KeptBefore options sector distance kept) (hnone : NoneBefore options sector distance) :
    kept = none := by
  cases kept with
  | none => rfl
  | some d =>
    obtain ⟨i, hpos, hlt, hholds, henabled, -⟩ := h
    exact absurd ⟨d, hholds, henabled⟩ (hnone i hpos hlt)

/-- A supplementary descriptor may have version 1 or 2. -/
theorem checkVersion_eq_ok {header : DescriptorHeader} :
    header.checkVersion .supplementary = .ok () ↔ header.version = 1 ∨ header.version = 2 := by
  rw [DescriptorHeader.checkVersion]
  simp only [DescriptorType.hasVersion, Bool.or_eq_true, decide_eq_true_eq]
  split
  · next h => simpa using h
  · next h => simpa using h

/-- With none kept, a descriptor that is read is kept if its level is made use of. -/
theorem keepJoliet_none {header : DescriptorHeader} {bytes : Bytes} {d : VolumeDescriptor}
    (hversion : header.checkVersion .supplementary = .ok ())
    (hparse : VolumeDescriptor.parse options.policy bytes = .ok d) :
    (IsEnabled options d ∧ keepJoliet options header bytes none = .ok (some d)) ∨
      (¬ IsEnabled options d ∧ keepJoliet options header bytes none = .ok none) := by
  have hkeep : keepJoliet options header bytes none =
      .ok (d.jolietLevel?.bind fun level =>
        if options.extensions.hasJoliet level then some d else none) := by
    rw [keepJoliet, hversion, hparse]
    dsimp only [bind, Except.bind]
    cases d.jolietLevel? <;> rfl
  rw [hkeep, IsEnabled]
  cases d.jolietLevel? with
  | none =>
    refine .inr ⟨?_, rfl⟩
    rintro ⟨level, h, -⟩
    cases h
  | some level =>
    rw [Option.bind_some]
    by_cases henabled : options.extensions.hasJoliet level = true
    · exact .inl ⟨⟨level, rfl, henabled⟩, by rw [if_pos henabled]⟩
    · refine .inr ⟨?_, by rw [if_neg henabled]⟩
      rintro ⟨_, h, h'⟩
      cases h
      exact henabled h'

/-- A supplementary descriptor that is passed over is of one of the two versions, can be read if
that is needed, and leaves the right descriptor kept. -/
theorem KeptBefore.of_keepJoliet {header : DescriptorHeader} {bytes : Bytes}
    {kept kept' : Option VolumeDescriptor} (h : KeptBefore options sector distance kept)
    (hpos : 1 ≤ distance) (hbytes : setSector sector distance = .ok bytes)
    (hkeep : keepJoliet options header bytes kept = .ok kept') :
    (header.version = 1 ∨ header.version = 2) ∧
      (NoneBefore options sector distance → ∃ d, Holds options sector distance d) ∧
      KeptBefore options sector (distance + 1) kept' := by
  have hkeep' := hkeep
  obtain ⟨⟨⟩, hversion, hrest⟩ := except_bind_eq_ok hkeep'
  refine ⟨checkVersion_eq_ok.mp hversion, ?_⟩
  cases kept with
  | some d =>
    cases hrest
    refine ⟨fun hnone => ?_, h.some_succ⟩
    cases h.eq_none_of_noneBefore hnone
  | none =>
    obtain ⟨d, hparse, -⟩ := except_bind_eq_ok hrest
    have hholds : Holds options sector distance d := ⟨bytes, hbytes, hparse⟩
    refine ⟨fun _ => ⟨d, hholds⟩, ?_⟩
    rcases keepJoliet_none hversion hparse with ⟨henabled, hkeep'⟩ | ⟨hnot, hkeep'⟩
    · cases hkeep.symm.trans hkeep'
      exact ⟨distance, hpos, Nat.lt_succ_self _, hholds, henabled, h⟩
    · cases hkeep.symm.trans hkeep'
      refine NoneBefore.succ h ?_
      rintro ⟨d', ⟨bytes', hbytes', hparse'⟩, henabled⟩
      cases hbytes.symm.trans hbytes'
      cases hparse.symm.trans hparse'
      exact hnot henabled

/-- A supplementary descriptor of one of the two versions is passed over if it can be read where
that is needed. -/
theorem KeptBefore.exists_keepJoliet {bytes : Bytes} {kept : Option VolumeDescriptor}
    (h : KeptBefore options sector distance kept) (header : DescriptorHeader)
    (hbytes : setSector sector distance = .ok bytes)
    (hversion : header.version = 1 ∨ header.version = 2)
    (hholds : NoneBefore options sector distance → ∃ d, Holds options sector distance d) :
    ∃ kept', keepJoliet options header bytes kept = .ok kept' := by
  have hversion' := checkVersion_eq_ok.mpr hversion
  cases kept with
  | some d =>
    refine ⟨some d, ?_⟩
    rw [keepJoliet, hversion']
    rfl
  | none =>
    obtain ⟨d, bytes', hbytes', hparse⟩ := hholds h
    cases hbytes.symm.trans hbytes'
    rcases keepJoliet_none hversion' hparse with ⟨-, hkeep⟩ | ⟨-, hkeep⟩
    · exact ⟨_, hkeep⟩
    · exact ⟨_, hkeep⟩

end Facts

/-! ## The loop -/

section Loop

variable {δ : Type} [BlockDevice δ] {s s' : SectorSource δ}
variable {options : MountOptions} {sector : UInt32 → Except Error Bytes} {distance stop : Nat}
variable {kept kept' : Option VolumeDescriptor}

/-- Where a sector has a head, the work goes on with both, from a source that shows as before. -/
theorem HasHead.run_bind {α : Type} {type : DescriptorType} {version : UInt8}
    (h : HasHead sector distance type version) (hs : s.Shows sector) :
    ∃ bytes s', setSector sector distance = .ok bytes ∧ s'.Shows sector ∧
      ∀ next : Bytes → DescriptorHeader → SourceM δ α,
        (SectorSource.readSector (setLsn distance) >>= fun bytes =>
          liftM (DescriptorHeader.parse bytes) >>= fun header => next bytes header).run.run s =
            (next bytes ⟨type.code, version⟩).run.run s' := by
  obtain ⟨bytes, hbytes, hhead⟩ := h
  obtain ⟨s', hs', hrun⟩ := hs.run_readSector_bind (α := α) hbytes
  refine ⟨bytes, s', hbytes, hs', fun next => ?_⟩
  rw [hrun, run_bind_ok (run_liftM_ok (DescriptorHeader.parse_eq_ok.mpr hhead) s')]

/-- Where such work succeeds, the sector can be read and starts with its head, and the rest succeeds on
both. -/
theorem of_readSector_head {α : Type} {next : Bytes → DescriptorHeader → SourceM δ α} {a : α}
    (hs : s.Shows sector)
    (hrun : (SectorSource.readSector (setLsn distance) >>= fun bytes =>
      liftM (DescriptorHeader.parse bytes) >>= fun header => next bytes header).run.run s =
        (.ok a, s')) :
    ∃ bytes header between, setSector sector distance = .ok bytes ∧ header.encode <+: bytes ∧
      between.Shows sector ∧ (next bytes header).run.run between = (.ok a, s') := by
  obtain ⟨bytes, between, hbytes, hbetween, hrest⟩ := hs.of_readSector_bind hrun
  obtain ⟨header, between', hlift, hnext⟩ := run_bind_eq_ok hrest
  obtain ⟨hparse, rfl⟩ := of_run_liftM hlift
  exact ⟨bytes, header, _, hbytes, DescriptorHeader.parse_eq_ok.mp hparse, hbetween, hnext⟩

/-- A terminator ends the loop, with the descriptor that has been kept until then. -/
theorem run_terminated (hs : s.Shows sector) (h : Terminates sector distance) (count : Nat)
    (kept : Option VolumeDescriptor) :
    ∃ s', (readSupplementary options (count + 1) (setLsn distance) kept).run.run s =
      (.ok kept, s') ∧ s'.Shows sector := by
  obtain ⟨version, hhead⟩ := h
  obtain ⟨bytes, s', -, hs', hrun⟩ := hhead.run_bind (α := Option VolumeDescriptor) hs
  refine ⟨s', ?_, hs'⟩
  rw [readSupplementary, hrun]
  rfl

/-- The loop passes over a sector and keeps the right descriptor, the first that is enabled. -/
theorem run_passed (hs : s.Shows sector) (h : Passes options sector distance) (hpos : 1 ≤ distance)
    (hkept : KeptBefore options sector distance kept) (count : Nat) :
    ∃ kept' s', KeptBefore options sector (distance + 1) kept' ∧ s'.Shows sector ∧
      (readSupplementary options (count + 1) (setLsn distance) kept).run.run s =
        (readSupplementary options count (setLsn (distance + 1)) kept').run.run s' := by
  obtain ⟨type, version, hhead, hnot, hsupplementary⟩ := h
  obtain ⟨bytes, s', hbytes, hs', hrun⟩ := hhead.run_bind (α := Option VolumeDescriptor) hs
  rw [readSupplementary, hrun, setLsn_add_one]
  cases type with
  | terminator => exact absurd rfl hnot
  | supplementary =>
    obtain ⟨hversion, hholds⟩ := hsupplementary rfl
    obtain ⟨kept', hkeep⟩ := hkept.exists_keepJoliet ⟨_, version⟩ hbytes hversion hholds
    refine ⟨kept', s', (hkept.of_keepJoliet hpos hbytes hkeep).2.2, hs', ?_⟩
    exact run_bind_ok (run_liftM_ok hkeep s')
  | bootRecord | primary | partition =>
    exact ⟨kept, s', hkept.succ (hhead.not_enabledAt (by decide)), hs', rfl⟩

/-- Where the loop succeeds, the sector is a terminator, or the loop goes on behind it. -/
theorem terminated_or_passed {count : Nat} {found : Option VolumeDescriptor} (hs : s.Shows sector)
    (hpos : 1 ≤ distance) (hkept : KeptBefore options sector distance kept)
    (hrun : (readSupplementary options (count + 1) (setLsn distance) kept).run.run s =
      (.ok found, s')) :
    (Terminates sector distance ∧ found = kept ∧ s'.Shows sector) ∨
      (Passes options sector distance ∧
        ∃ kept' between, KeptBefore options sector (distance + 1) kept' ∧ between.Shows sector ∧
          (readSupplementary options count (setLsn (distance + 1)) kept').run.run between =
            (.ok found, s')) := by
  rw [readSupplementary] at hrun
  obtain ⟨bytes, ⟨typeCode, version⟩, between, hbytes, hhead, hbetween, hrest⟩ :=
    of_readSector_head hs hrun
  rw [setLsn_add_one] at hrest
  cases htype : DescriptorType.ofCode? typeCode with
  | none =>
    have hunknown : (DescriptorHeader.mk typeCode version).type? = none := htype
    rw [hunknown] at hrest
    cases hrest
  | some type =>
    have hknown : (DescriptorHeader.mk typeCode version).type? = some type := htype
    obtain rfl := DescriptorType.ofCode?_eq_some.mp htype
    have hhead' : HasHead sector distance type version := ⟨bytes, hbytes, hhead⟩
    rw [hknown] at hrest
    cases type with
    | terminator =>
      cases hrest
      exact .inl ⟨⟨version, hhead'⟩, rfl, hbetween⟩
    | supplementary =>
      obtain ⟨kept', between', hlift, hnext⟩ := run_bind_eq_ok hrest
      obtain ⟨hkeep, rfl⟩ := of_run_liftM hlift
      obtain ⟨hversion, hholds, hkept'⟩ := hkept.of_keepJoliet hpos hbytes hkeep
      exact .inr ⟨⟨_, version, hhead', by decide, fun _ => ⟨hversion, hholds⟩⟩,
        kept', _, hkept', hbetween, hnext⟩
    | bootRecord | primary | partition =>
      exact .inr ⟨⟨_, version, hhead', by decide, fun h => (nomatch h)⟩, kept, between,
        hkept.succ (hhead'.not_enabledAt (by decide)), hbetween, hrest⟩

/-- The loop comes to the terminator if it passes over everything before it. The induction is on what is
before it. -/
theorem run_toTerminator {count : Nat} (hs : s.Shows sector) (hpos : 1 ≤ distance)
    (hkept : KeptBefore options sector distance kept) (hle : distance ≤ stop)
    (hlt : stop < distance + count) (hstop : Terminates sector stop)
    (hpasses : ∀ i, distance ≤ i → i < stop → Passes options sector i) :
    ∃ found s', (readSupplementary options count (setLsn distance) kept).run.run s =
      (.ok found, s') ∧ s'.Shows sector := by
  induction count generalizing distance kept s with
  | zero => omega
  | succ count ih =>
    rcases Nat.eq_or_lt_of_le hle with rfl | hbefore
    · exact ⟨kept, run_terminated hs hstop count kept⟩
    · obtain ⟨kept', s', hkept', hs', hrun⟩ :=
        run_passed hs (hpasses distance (Nat.le_refl _) hbefore) hpos hkept count
      rw [hrun]
      exact ih hs' (by omega) hkept' hbefore (by omega) fun i hi => hpasses i (by omega)

/-- Where the loop succeeds, it has come to a terminator and keeps the right descriptor. -/
theorem terminated_of_run {count : Nat} {found : Option VolumeDescriptor} (hs : s.Shows sector)
    (hpos : 1 ≤ distance) (hkept : KeptBefore options sector distance kept)
    (hrun : (readSupplementary options count (setLsn distance) kept).run.run s = (.ok found, s')) :
    ∃ stop, distance ≤ stop ∧ stop < distance + count ∧ Terminates sector stop ∧
      (∀ i, distance ≤ i → i < stop → Passes options sector i) ∧
      KeptBefore options sector stop found ∧ s'.Shows sector := by
  induction count generalizing distance kept s with
  | zero => cases hrun
  | succ count ih =>
    rcases terminated_or_passed hs hpos hkept hrun with
      ⟨hstop, rfl, hs'⟩ | ⟨hpass, kept', between, hkept', hbetween, hrest⟩
    · exact ⟨distance, Nat.le_refl _, by omega, hstop, fun i _ _ => by omega, hkept, hs'⟩
    · obtain ⟨stop, hle, hlt, hstop, hpasses, hfound, hs'⟩ := ih hbetween (by omega) hkept' hrest
      refine ⟨stop, by omega, by omega, hstop, fun i hi hlt => ?_, hfound, hs'⟩
      rcases Nat.eq_or_lt_of_le hi with rfl | hbehind
      · exact hpass
      · exact hpasses i hbehind hlt

/-- The loop gives up behind its last sector, with `missingTerminator`. The induction is on how many are
left. -/
theorem run_missingTerminator {count : Nat} (hs : s.Shows sector) (hpos : 1 ≤ distance)
    (hkept : KeptBefore options sector distance kept)
    (hpasses : ∀ i, distance ≤ i → i < distance + count → Passes options sector i) :
    ((readSupplementary options count (setLsn distance) kept).run.run s).1 =
      .error (.format .missingTerminator) := by
  induction count generalizing distance kept s with
  | zero => rfl
  | succ count ih =>
    obtain ⟨kept', s', hkept', hs', hrun⟩ :=
      run_passed hs (hpasses distance (Nat.le_refl _) (by omega)) hpos hkept count
    rw [hrun]
    exact ih hs' (by omega) hkept' fun i hi hlt => hpasses i (by omega) (by omega)

end Loop

/-! ## The primary descriptor and the root directory -/

section Ends

variable {δ : Type} [BlockDevice δ] {s s' : SectorSource δ}
variable {options : MountOptions} {sector : UInt32 → Except Error Bytes}
variable {primary : VolumeDescriptor}

/-- The primary descriptor is read if there is one in the first sector of the set. -/
theorem run_readPrimary (hs : s.Shows sector) (h : Holds options sector 0 primary)
    (htype : primary.type = .primary) :
    ∃ s', (readPrimary options).run.run s = (.ok primary, s') ∧ s'.Shows sector := by
  obtain ⟨version, hhead⟩ := h.hasHead
  obtain ⟨bytes, s', hbytes, hs', hrun⟩ := hhead.run_bind (α := VolumeDescriptor) hs
  obtain ⟨bytes', hbytes', hparse⟩ := h
  cases hbytes.symm.trans hbytes'
  refine ⟨s', ?_, hs'⟩
  show (SectorSource.readSector (setLsn 0) >>= _).run.run s = _
  rw [hrun, htype]
  exact run_liftM_ok hparse s'

/-- If a primary descriptor is read, the first sector of the set holds it. -/
theorem holds_of_readPrimary (hs : s.Shows sector)
    (hrun : (readPrimary options).run.run s = (.ok primary, s')) :
    Holds options sector 0 primary ∧ primary.type = .primary ∧ s'.Shows sector := by
  change (SectorSource.readSector (setLsn 0) >>= _).run.run s = _ at hrun
  obtain ⟨bytes, header, between, hbytes, hhead, hbetween, hrest⟩ := of_readSector_head hs hrun
  dsimp only at hrest
  split at hrest
  · cases hrest
  · next htype =>
    obtain ⟨hparse, rfl⟩ := of_run_liftM hrest
    have hholds : Holds options sector 0 primary := ⟨bytes, hbytes, hparse⟩
    obtain ⟨version, hhead'⟩ := hholds.hasHead
    have hcode := DescriptorType.ofCode?_eq_some.mp (not_not.mp htype)
    obtain ⟨typeCode, version'⟩ := header
    obtain rfl : typeCode = DescriptorType.primary.code := hcode
    exact ⟨hholds, hhead'.unique ⟨bytes, hbytes, hhead⟩, hbetween⟩

/-- Padding is no record, so that a directory that starts with it shows no Rock Ridge. -/
theorem parse_of_head_zero {policy : EndianPolicy} {bytes : Bytes} (h : bytes.head? = some 0) :
    DirectoryRecord.parse policy bytes = .error .truncatedRecord := by
  obtain ⟨tail, rfl⟩ := List.head?_eq_some_iff.mp h
  rfl

/-- Whether a directory has Rock Ridge can be told if its first sector can be read and starts with
padding or with a record. -/
theorem run_directoryHasRockRidge (hs : s.Shows sector) {lsn : UInt32} {bytes : Bytes}
    (hbytes : sector lsn = .ok bytes)
    (h : bytes.head? = some 0 ∨ ∃ r, DirectoryRecord.parse options.policy bytes = .ok r) :
    ∃ found s', (directoryHasRockRidge options lsn).run.run s = (.ok found, s') ∧
      s'.Shows sector := by
  obtain ⟨s', hs', hrun⟩ := hs.run_readSector_bind (α := Bool) hbytes
  rw [directoryHasRockRidge, hrun]
  rcases h with hpadding | ⟨r, hparse⟩
  · rw [if_pos hpadding]
    exact ⟨false, s', rfl, hs'⟩
  · have hrecord : ¬ bytes.head? = some 0 := by
      intro hpadding
      rw [parse_of_head_zero hpadding] at hparse
      cases hparse
    rw [if_neg hrecord, run_bind_ok (run_liftM_ok hparse s')]
    exact ⟨_, s', rfl, hs'⟩

/-- If it can be told, this is why, and Rock Ridge is present exactly if the first record shows it. -/
theorem of_directoryHasRockRidge (hs : s.Shows sector) {lsn : UInt32} {found : Bool}
    (hrun : (directoryHasRockRidge options lsn).run.run s = (.ok found, s')) :
    ∃ bytes, sector lsn = .ok bytes ∧
      (bytes.head? = some 0 ∨ ∃ r, DirectoryRecord.parse options.policy bytes = .ok r) ∧
      (found = true ↔ ∃ r, DirectoryRecord.parse options.policy bytes = .ok r ∧
        RockRidge.isPresent r.systemUse = true) := by
  obtain ⟨bytes, between, hbytes, hbetween, hrest⟩ := hs.of_readSector_bind hrun
  refine ⟨bytes, hbytes, ?_⟩
  split at hrest
  · next hpadding =>
    cases hrest
    refine ⟨.inl hpadding, fun h => (nomatch h), fun ⟨r, hparse, _⟩ => ?_⟩
    rw [parse_of_head_zero hpadding] at hparse
    cases hparse
  · obtain ⟨r, between', hlift, hdone⟩ := run_bind_eq_ok hrest
    obtain ⟨hparse, rfl⟩ := of_run_liftM hlift
    cases hdone
    refine ⟨.inr ⟨r, hparse⟩, fun h => ⟨r, hparse, h⟩, fun ⟨r', hparse', h⟩ => ?_⟩
    cases hparse.symm.trans hparse'
    exact h

end Ends

/-! ## The volume -/

section Read

variable {δ : Type} [BlockDevice δ] {s : SectorSource δ}
variable {options : MountOptions} {sector : UInt32 → Except Error Bytes}

/-- The number of the level in use is that of the descriptor that is kept, and 0 where none is. -/
theorem jolietLevel_of_keptBefore {stop : Nat} {v : Volume}
    (h : KeptBefore options sector stop v.joliet) :
    (v.joliet = none ∧ v.jolietLevel = 0) ∨
      ∃ d level, v.joliet = some d ∧ d.jolietLevel? = some level ∧
        v.jolietLevel = level.number := by
  cases hjoliet : v.joliet with
  | none =>
    refine .inl ⟨rfl, ?_⟩
    rw [jolietLevel, hjoliet]
    rfl
  | some d =>
    rw [hjoliet] at h
    obtain ⟨i, -, -, -, ⟨level, hlevel, -⟩, -⟩ := h
    refine .inr ⟨d, level, rfl, hlevel, ?_⟩
    rw [jolietLevel, hjoliet, Option.bind_some, hlevel]
    rfl

theorem keptBefore_one : KeptBefore options sector 1 none := fun i hpos hlt => by omega

/-- A volume that is read is described by a descriptor set, which ends where the reading stopped. -/
theorem describes_of_read (hs : s.Shows sector) {s' : SectorSource δ} {v : Volume}
    (hrun : (read options).run.run s = (.ok v, s')) :
    RootReads options sector v.primary ∧
      ∃ stop, EndsAt options sector stop ∧ Describes options sector stop v := by
  obtain ⟨primary, s₁, hprimary, hrun⟩ := run_bind_eq_ok hrun
  obtain ⟨hholds, htype, hs₁⟩ := holds_of_readPrimary hs hprimary
  obtain ⟨joliet, s₂, hjoliet, hrun⟩ := run_bind_eq_ok hrun
  obtain ⟨stop, hpos, hlt, hstop, hpasses, hkept, hs₂⟩ :=
    terminated_of_run hs₁ (Nat.le_refl 1) keptBefore_one hjoliet
  have hle : stop ≤ 64 := by
    unfold maxDescriptors at hlt
    omega
  have hends : EndsAt options sector stop := ⟨hpos, hle, hstop, hpasses⟩
  dsimp only at hrun
  split at hrun
  · next henabled =>
    obtain ⟨found, s₃, hfound, hdone⟩ := run_bind_eq_ok hrun
    obtain ⟨bytes, hbytes, hreads, hiff⟩ := of_directoryHasRockRidge hs₂ hfound
    cases hdone
    refine ⟨fun _ => ⟨bytes, hbytes, hreads⟩, stop, hends, ⟨hholds, htype⟩, hkept,
      jolietLevel_of_keptBefore hkept, ?_⟩
    constructor
    · intro h
      obtain ⟨r, hparse, hpresent⟩ := hiff.mp h
      exact ⟨henabled, bytes, r, hbytes, hparse, hpresent⟩
    · rintro ⟨-, bytes', r, hbytes', hparse, hpresent⟩
      cases hbytes.symm.trans hbytes'
      exact hiff.mpr ⟨r, hparse, hpresent⟩
  · next hdisabled =>
    cases hrun
    exact ⟨fun h => absurd h hdisabled, stop, hends, ⟨hholds, htype⟩, hkept,
      jolietLevel_of_keptBefore hkept, fun h => (nomatch h), fun h => absurd h.1 hdisabled⟩

/-- A descriptor set is read as a volume: its primary descriptor, the Joliet one that is kept, and Rock
Ridge. -/
theorem run_read (hs : s.Shows sector) {primary : VolumeDescriptor} {stop : Nat}
    (hholds : Holds options sector 0 primary) (htype : primary.type = .primary)
    (hends : EndsAt options sector stop) (hroot : RootReads options sector primary) :
    ∃ v, ((read options).run.run s).1 = .ok v := by
  obtain ⟨s₁, hprimary, hs₁⟩ := run_readPrimary hs hholds htype
  obtain ⟨joliet, s₂, hjoliet, hs₂⟩ := run_toTerminator hs₁ (Nat.le_refl 1) keptBefore_one hends.pos
    (Nat.lt_of_le_of_lt hends.le (by decide : 64 < 1 + maxDescriptors)) hends.terminates
    hends.passes
  have hjoliet' : (readSupplementary options maxDescriptors (descriptorSetStart + 1) none).run.run
      s₁ = (.ok joliet, s₂) := hjoliet
  rw [read, run_bind_ok hprimary, run_bind_ok hjoliet']
  split
  · next henabled =>
    obtain ⟨bytes, hbytes, hreads⟩ := hroot henabled
    obtain ⟨found, s₃, hfound, -⟩ := run_directoryHasRockRidge hs₂ hbytes hreads
    rw [run_bind_ok hfound]
    exact ⟨_, rfl⟩
  · exact ⟨_, rfl⟩

/-- **The volume read is the one that the descriptor set describes.** A volume is read exactly where
the first sector of the set is a primary descriptor, the sectors behind it end with a terminator
within 64 sectors and are well formed up to there, and the root directory can be looked at if Rock
Ridge is made use of. It is the volume that these sectors describe. Where 64 sectors are well formed
and none of them is a terminator, that is what is reported. -/
theorem read_describes (hs : s.Shows sector) (options : MountOptions) :
    ((∃ v, ((read options).run.run s).1 = .ok v) ↔
      ∃ primary, Holds options sector 0 primary ∧ primary.type = .primary ∧
        (∃ stop, EndsAt options sector stop) ∧ RootReads options sector primary) ∧
    (∀ v, ((read options).run.run s).1 = .ok v →
      ∃ stop, EndsAt options sector stop ∧ Describes options sector stop v) ∧
    (∀ primary, Holds options sector 0 primary → primary.type = .primary →
      (∀ i, 1 ≤ i → i ≤ 64 → Passes options sector i) →
        ((read options).run.run s).1 = .error (.format .missingTerminator)) := by
  refine ⟨⟨?_, ?_⟩, ?_, ?_⟩
  · rintro ⟨v, hv⟩
    obtain ⟨hroot, stop, hends, hdescribes⟩ := describes_of_read hs (Prod.ext hv rfl)
    exact ⟨v.primary, hdescribes.primary.1, hdescribes.primary.2, ⟨stop, hends⟩, hroot⟩
  · rintro ⟨primary, hholds, htype, ⟨stop, hends⟩, hroot⟩
    exact run_read hs hholds htype hends hroot
  · intro v hv
    exact (describes_of_read hs (Prod.ext hv rfl)).2
  · intro primary hholds htype hpasses
    obtain ⟨s₁, hprimary, hs₁⟩ := run_readPrimary hs hholds htype
    have hmissing : ((readSupplementary options maxDescriptors (descriptorSetStart + 1) none).run.run
        s₁).1 = .error (.format .missingTerminator) :=
      run_missingTerminator hs₁ (Nat.le_refl 1) keptBefore_one fun i hpos hlt =>
        hpasses i hpos (Nat.le_of_lt_succ (Nat.lt_of_lt_of_le hlt (by decide)))
    rw [read, run_bind_ok hprimary, run_bind_error (Prod.ext hmissing rfl)]

/-- A blank primary descriptor of a volume whose root directory starts at sector 18. -/
def blankPrimary : Bytes :=
  let root := DirectoryRecord.ofExtent [0x00] 18 2048 .directory
  (VolumeDescriptor.blank .primary root).layout (UInt8.ofNat root.encodedLength :: root.body)

theorem length_blankPrimary : blankPrimary.length = 2048 := VolumeDescriptor.length_layout _ (by decide)

/-- It is read as a primary descriptor under either policy, and has its root directory in sector 18. -/
theorem parse_blankPrimary (policy : EndianPolicy) :
    ∃ d, VolumeDescriptor.parse policy blankPrimary = .ok d ∧ d.type = .primary ∧ d.rootLsn = 18 := by
  have hencode :
      (VolumeDescriptor.blank .primary (DirectoryRecord.ofExtent [0x00] 18 2048 .directory)).encode =
        .ok blankPrimary :=
    VolumeDescriptor.encode_eq_ok.mpr
      ⟨_, if_neg (by decide), rfl, Nat.le_of_eq (Bytes.length_zeros _), rfl⟩
  exact ⟨_, VolumeDescriptor.parse_encode policy hencode (.inl ⟨rfl, rfl⟩), rfl, rfl⟩

/-- An image that starts with the primary descriptor. A terminator and a directory with nothing in
it stand behind that. -/
theorem read_describes_blankPrimary :
    let device := MemoryDevice.ofBytes 2048 (blankPrimary ++ (terminatorSector ++ Bytes.zeros 2048))
    ∃ v, ((read {}).run.run (SectorSource.ofDevice device ⟨2048, -32768⟩)).1 = .ok v := by
  obtain ⟨bytes, hbytes⟩ :
      ∃ bytes, blankPrimary ++ (terminatorSector ++ Bytes.zeros 2048) = bytes :=
    ⟨_, rfl⟩
  have hprimary := length_blankPrimary
  have hterminator : terminatorSector.length = 2048 := length_terminatorSector
  have hlength : bytes.length = 6144 := by
    rw [← hbytes, List.length_append, List.length_append, hprimary, hterminator, Bytes.length_zeros]
  have hdvd : 2048 ∣ bytes.length := by
    rw [hlength]
    decide
  have hread {lsn : UInt32} {offset : Nat}
      (hoffset : Framing.byteOffset? ⟨2048, -32768⟩ lsn = some offset)
      (hend : offset + sectorSize ≤ 6144) :
      Image.readSector ⟨bytes, 2048, by decide, by decide⟩ ⟨2048, -32768⟩ lsn =
        .ok (bytes.slice offset sectorSize) :=
    Image.readSector_eq_ok.mpr ⟨offset, hoffset, by rw [hlength]; exact hend, rfl⟩
  have hfirst : bytes.slice 0 sectorSize = blankPrimary := by
    rw [← hbytes, Bytes.slice, List.drop_zero, List.take_left' hprimary]
  have hsecond : bytes.slice 2048 sectorSize = terminatorSector := by
    rw [← hbytes, Bytes.slice, List.drop_left' hprimary, List.take_left' hterminator]
  have hthird : bytes.slice 4096 sectorSize = Bytes.zeros 2048 := by
    rw [← hbytes, Bytes.slice, ← List.append_assoc, List.drop_left', List.take_of_length_le]
    · exact Nat.le_of_eq (Bytes.length_zeros _)
    · rw [List.length_append, hprimary, hterminator]
  obtain ⟨d, hparse, htype, hroot⟩ := parse_blankPrimary .strict
  rw [hbytes]
  have hheld := @MemoryDevice.heldBy_ofBytes ⟨bytes, 2048, by decide, by decide⟩ 2048 rfl hdvd
    (by rw [hlength]; decide)
  have hshows := (SectorSource.serves_ofDevice hheld ⟨2048, -32768⟩).shows
  refine (read_describes hshows {}).1.mpr ⟨d, ?_, htype, ⟨1, by decide, by decide, ?_, ?_⟩, ?_⟩
  · exact ⟨_, hread (by decide : _ = some 0) (by decide), by rw [hfirst]; exact hparse⟩
  · refine ⟨1, _, hread (by decide : _ = some 2048) (by decide), ?_⟩
    rw [hsecond]
    exact List.prefix_append _ _
  · omega
  · refine fun _ => ⟨_, hread (by rw [hroot]; decide : _ = some 4096) (by decide), .inl ?_⟩
    rw [hthird]
    rfl

end Read

end Ecma119.Volume
