import Ecma119.Directory.Entry
import Mathlib.Algebra.GroupWithZero.Nat
import Mathlib.Data.List.Forall2

/-!
# Listings and chains

A listing takes its records in one pass, with the entry of the chain that is open at hand. Here it
is compared with what a listing is: the records that are listed, cut into consecutive groups, one
for each file. `Splits` says that records are cut in this way, with a last group that is still to be
continued, and `IsEntryOf` what entry a group makes. `assemble_append` is the pass over any number
of records, from any open chain; `parseDirectory_chains` is what it comes to for an extent.
-/

namespace Ecma119

/-! ## What a walk gives -/

namespace Cursor

variable {policy : EndianPolicy}

/-- Where nothing is left there is no item, under either policy and wherever the cursor stands. -/
theorem items_of_rest_nil {c : Cursor} (h : c.rest = []) : c.items policy = [] := by
  obtain ⟨offset, rest⟩ := c
  obtain rfl : rest = [] := h
  have hskip : skipPadding ⟨offset, []⟩ = ⟨offset, []⟩ := by rw [skipPadding]
  have hnext : next policy ⟨offset, []⟩ = (none, ⟨offset, []⟩) := by rw [next, hskip]
  rw [items]
  split
  · rfl
  · next heq => simp [hnext] at heq

/-- A record that cannot be read puts the cursor at the end, so that nothing behind it is looked at. -/
theorem rest_of_readRecord_error {c c' : Cursor} {length : Nat} {cause : FormatError}
    (h : c.readRecord policy length = (.error cause, c')) : c'.rest = [] := by
  have hend : (c.advance c.rest.length).rest = [] := by simp [advance]
  rw [readRecord] at h
  split at h
  · cases h
    exact hend
  · split at h
    · cases h
    · cases h
      exact hend

/-- A fault is the last item, as the cursor that meets it is put at the end. -/
theorem rest_of_next_error {c c' : Cursor} {cause : FormatError}
    (h : c.next policy = (some (.error cause), c')) : c'.rest = [] := by
  rw [next] at h
  split at h
  · cases h
  · next length _ _ =>
    cases hread : c.skipPadding.readRecord policy length.toNat with
    | mk item after =>
      rw [hread] at h
      cases h
      exact rest_of_readRecord_error hread

/-- A walk gives records and then at most one fault, behind which nothing comes. The induction follows
the walk. -/
theorem items_eq_records (policy : EndianPolicy) (c : Cursor) :
    ∃ (records : List (Nat × DirectoryRecord)) (fault : Option FormatError),
      c.items policy = records.map .ok ++ (fault.map .error).toList := by
  fun_induction items policy c with
  | case1 c => exact ⟨[], none, rfl⟩
  | case2 c item c' hnext ih =>
    cases item with
    | ok record =>
      obtain ⟨records, fault, hitems⟩ := ih
      exact ⟨record :: records, fault, by rw [hitems]; rfl⟩
    | error cause =>
      have hend : c'.items policy = [] := items_of_rest_nil (rest_of_next_error hnext)
      exact ⟨[], some cause, by rw [hend]; rfl⟩

end Cursor

/-! ## Groups of records -/

/-- The records that a listing shows. -/
def listed (opts : ListOptions) (records : List DirectoryRecord) : List DirectoryRecord :=
  records.filter fun r => !r.isDot || opts.includeDots

/-- Which records are listed is told by each of them on its own, so that later ones change nothing of
those before. -/
theorem listed_append (opts : ListOptions) (records later : List DirectoryRecord) :
    listed opts (records ++ later) = listed opts records ++ listed opts later :=
  List.filter_append records later

theorem listed_cons (opts : ListOptions) (r : DirectoryRecord) (records : List DirectoryRecord) :
    listed opts (r :: records) = listed opts [r] ++ listed opts records :=
  listed_append opts [r] records

/-- A record is listed unless it is the directory's own or its parent's and these are left out. -/
theorem listed_singleton (opts : ListOptions) (r : DirectoryRecord) :
    (r.isDot = true ∧ listed opts [r] = []) ∨ listed opts [r] = [r] := by
  cases hdot : r.isDot <;> cases hdots : opts.includeDots <;> simp [listed, hdot, hdots]

/-- Two records that can be of one file: their identifiers read the same, and they are of one
kind. -/
def DirectoryRecord.Alike (opts : ListOptions) (r s : DirectoryRecord) : Prop :=
  r.rawName opts.joliet = s.rawName opts.joliet ∧ r.flags.isDirectory = s.flags.isDirectory

/-- Records of one file of which all are flagged as continued, so that another one has to follow. -/
structure OpenChain (opts : ListOptions) (chain : List DirectoryRecord) : Prop where
  continued : ∀ r ∈ chain, r.flags.isMultiExtent = true
  alike : ∀ r ∈ chain, ∀ s ∈ chain, r.Alike opts s

/-- All records of one file: every one but the last is flagged as continued. -/
structure WholeChain (opts : ListOptions) (chain : List DirectoryRecord) : Prop where
  nonempty : chain ≠ []
  continued : ∀ r ∈ chain.dropLast, r.flags.isMultiExtent = true
  ended : ∀ r ∈ chain.getLast?, r.flags.isMultiExtent = false
  alike : ∀ r ∈ chain, ∀ s ∈ chain, r.Alike opts s

/-- The entry that all records of one file make. -/
structure IsEntryOf (opts : ListOptions) (chain : List DirectoryRecord) (e : Entry) : Prop where
  extents : e.extents = chain.map fun r => ⟨r.extent, r.size⟩
  size : e.size = (chain.map fun r => r.size.toNat).sum
  flags : ∀ last ∈ chain.getLast?, e.flags = last.flags
  kind : ∀ first ∈ chain.head?,
    e.kind = if first.flags.isDirectory then .directory else .file
  name : ∀ first ∈ chain.head?, e.name = first.displayName opts
  rawName : ∀ first ∈ chain.head?, e.rawName = first.rawName opts.joliet
  lsn : ∀ first ∈ chain.head?, e.lsn = first.extent
  xa : ∀ first ∈ chain.head?, e.xa = XaAttributes.parse first.systemUse
  timestamp : ∀ first ∈ chain.head?, e.timestamp = first.time.toOption.join
  volumeSequenceNumber : ∀ first ∈ chain.head?,
    e.volumeSequenceNumber = first.volumeSequenceNumber

/-- Whether the last of some records asks for another one. Where there are no records, nothing asks. -/
def AsksForMore (records : List DirectoryRecord) : Prop :=
  ∃ r ∈ records.getLast?, r.flags.isMultiExtent = true

/-- No record of a directory itself or of its parent, shown or not, stands in the middle of a
file. -/
def Undisturbed (opts : ListOptions) (chain records : List DirectoryRecord) : Prop :=
  ∀ before dot after, records = before ++ dot :: after → dot.isDot = true →
    ¬ AsksForMore (chain ++ listed opts before)

/-- The records of a walk that come after an open chain are cut into groups, and what the last of
them leaves open. -/
structure SplitsAfter (opts : ListOptions) (chain records : List DirectoryRecord)
    (groups : List (List DirectoryRecord)) (unfinished : List DirectoryRecord) : Prop where
  parts : chain ++ listed opts records = groups.flatten ++ unfinished
  whole : ∀ group ∈ groups, WholeChain opts group
  unfinished : OpenChain opts unfinished
  undisturbed : Undisturbed opts chain records

/-- The records of a walk are cut into groups, and what the last of them leaves open. -/
abbrev Splits (opts : ListOptions) (records : List DirectoryRecord)
    (groups : List (List DirectoryRecord)) (unfinished : List DirectoryRecord) : Prop :=
  SplitsAfter opts [] records groups unfinished

section Chains

variable {opts : ListOptions} {chain records rest unfinished group : List DirectoryRecord}
variable {groups : List (List DirectoryRecord)} {r : DirectoryRecord}

/-- No records are an open chain, with which a directory starts. -/
theorem OpenChain.nil : OpenChain opts [] :=
  ⟨fun _ h => (nomatch h), fun _ h => (nomatch h)⟩

/-- A record that is like those of an open chain makes it longer, and all of them are then alike. -/
theorem alike_append (halike : ∀ x ∈ chain, ∀ y ∈ chain, x.Alike opts y)
    (hr : ∀ x ∈ chain, x.Alike opts r) :
    ∀ x ∈ chain ++ [r], ∀ y ∈ chain ++ [r], x.Alike opts y := by
  intro x hx y hy
  rw [List.mem_append, List.mem_singleton] at hx hy
  rcases hx with hx | rfl
  · rcases hy with hy | rfl
    · exact halike x hx y hy
    · exact hr x hx
  · rcases hy with hy | rfl
    · exact ⟨(hr y hy).1.symm, (hr y hy).2.symm⟩
    · exact ⟨rfl, rfl⟩

/-- A record that is like all others of an open chain and says that more follow goes on the chain. -/
theorem OpenChain.append (h : OpenChain opts chain) (hr : ∀ x ∈ chain, x.Alike opts r)
    (hmore : r.flags.isMultiExtent = true) : OpenChain opts (chain ++ [r]) where
  continued x hx := by
    rw [List.mem_append, List.mem_singleton] at hx
    rcases hx with hx | rfl
    · exact h.continued x hx
    · exact hmore
  alike := alike_append h.alike hr

/-- A record that is not continued completes the chain: it is whole, and the next record starts another.
-/
theorem OpenChain.close (h : OpenChain opts chain) (hr : ∀ x ∈ chain, x.Alike opts r)
    (hlast : r.flags.isMultiExtent = false) : WholeChain opts (chain ++ [r]) where
  nonempty := by simp
  continued x hx := by
    rw [List.dropLast_concat] at hx
    exact h.continued x hx
  ended x hx := by
    rw [List.getLast?_concat, Option.mem_some_iff] at hx
    rw [← hx, hlast]
  alike := alike_append h.alike hr

/-- An open chain that is not empty asks for another record, as each of its records says that one
follows. -/
theorem OpenChain.asksForMore (h : OpenChain opts chain) (hne : chain ≠ []) :
    AsksForMore chain := by
  refine ⟨chain.getLast hne, List.getLast_mem_getLast? hne, ?_⟩
  exact h.continued _ (List.getLast_mem hne)

/-- A whole chain is records that are continued, and one that is not, which comes last. -/
theorem WholeChain.exists_concat (h : WholeChain opts group) :
    ∃ init last, group = init ++ [last] ∧ (∀ x ∈ init, x.flags.isMultiExtent = true) ∧
      last.flags.isMultiExtent = false := by
  obtain ⟨init, last, rfl⟩ := List.eq_nil_or_concat group |>.resolve_left h.nonempty
  have hcontinued := h.continued
  have hended := h.ended
  rw [List.concat_eq_append] at hcontinued hended ⊢
  rw [List.dropLast_concat] at hcontinued
  exact ⟨init, last, rfl, hcontinued, hended last (by rw [List.getLast?_concat]; rfl)⟩

/-! ## The first group -/

/-- What comes after an open chain is in one group with it, or is left unfinished with it. -/
theorem SplitsAfter.first_group (h : SplitsAfter opts chain (r :: records) groups unfinished)
    (hchain : OpenChain opts chain) (hr : listed opts [r] = [r]) :
    (groups = [] ∧ chain ++ [r] <+: unfinished) ∨
      ∃ group later, groups = group :: later ∧ chain ++ [r] <+: group := by
  have hparts := h.parts
  rw [listed_cons, hr, List.singleton_append] at hparts
  cases hgroups : groups with
  | nil =>
    rw [hgroups, List.flatten_nil, List.nil_append] at hparts
    exact .inl ⟨rfl, listed opts records, by rw [← hparts]; simp⟩
  | cons group later =>
    obtain ⟨init, last, rfl, -, hlast⟩ := (h.whole group (by simp [hgroups])).exists_concat
    refine .inr ⟨init ++ [last], later, rfl, ?_⟩
    rw [hgroups, List.flatten_cons, List.append_assoc, List.append_assoc,
      List.append_eq_append_iff] at hparts
    rcases hparts with ⟨more, hinit, hmore⟩ | ⟨more, hinit, hmore⟩
    -- The group goes on behind the chain: with its last record, or with one before that.
    · cases more with
      | nil =>
        obtain ⟨rfl, -⟩ := List.cons.inj hmore
        exact ⟨[], by rw [hinit]; simp⟩
      | cons next more =>
        obtain ⟨rfl, -⟩ := List.cons.inj hmore
        exact ⟨more ++ [last], by rw [hinit]; simp⟩
    -- It cannot end within the chain, of which every record is continued.
    · cases more with
      | nil =>
        obtain ⟨rfl, -⟩ := List.cons.inj hmore
        exact ⟨[], by rw [hinit]; simp⟩
      | cons next more =>
        obtain ⟨rfl, -⟩ := List.cons.inj hmore
        have hmem : last ∈ chain := by rw [hinit]; simp
        rw [hchain.continued last hmem] at hlast
        cases hlast

/-- A record belongs to the chain before it, so that all records of a file are alike. -/
theorem SplitsAfter.alike (h : SplitsAfter opts chain (r :: records) groups unfinished)
    (hchain : OpenChain opts chain) (hr : listed opts [r] = [r]) :
    ∀ x ∈ chain, x.Alike opts r := by
  intro x hx
  rcases h.first_group hchain hr with ⟨-, hstart⟩ | ⟨group, later, hgroups, hstart⟩
  · exact h.unfinished.alike x (hstart.subset (by simp [hx])) r (hstart.subset (by simp))
  · exact (h.whole group (by simp [hgroups])).alike x (hstart.subset (by simp [hx])) r
      (hstart.subset (by simp))

/-- A record that is not continued ends the first group, which is the open chain and that record. -/
theorem SplitsAfter.groups_eq (h : SplitsAfter opts chain (r :: records) groups unfinished)
    (hchain : OpenChain opts chain) (hr : listed opts [r] = [r])
    (hlast : r.flags.isMultiExtent = false) : ∃ later, groups = (chain ++ [r]) :: later := by
  rcases h.first_group hchain hr with ⟨-, hstart⟩ | ⟨group, later, hgroups, more, hmore⟩
  · rw [h.unfinished.continued r (hstart.subset (by simp))] at hlast
    cases hlast
  · cases more with
    | nil => exact ⟨later, by rw [hgroups, ← hmore, List.append_nil]⟩
    | cons next more =>
      have hmem : r ∈ group.dropLast := by
        rw [← hmore, List.dropLast_append_of_ne_nil (List.cons_ne_nil _ _)]
        simp
      rw [(h.whole group (by simp [hgroups])).continued r hmem] at hlast
      cases hlast

/-- Records up to the first that is not continued are the same however they are found. -/
theorem append_cons_inj {init init' later later' : List DirectoryRecord}
    {last last' : DirectoryRecord} (h : init ++ last :: later = init' ++ last' :: later')
    (hinit : ∀ x ∈ init, x.flags.isMultiExtent = true) (hlast : last.flags.isMultiExtent = false)
    (hinit' : ∀ x ∈ init', x.flags.isMultiExtent = true)
    (hlast' : last'.flags.isMultiExtent = false) :
    init = init' ∧ last = last' ∧ later = later' := by
  induction init generalizing init' with
  | nil =>
    cases init' with
    | nil => simpa using h
    | cons x init' =>
      obtain ⟨rfl, -⟩ := List.cons.inj h
      rw [hinit' last List.mem_cons_self] at hlast
      cases hlast
  | cons x init ih =>
    cases init' with
    | nil =>
      obtain ⟨rfl, -⟩ := List.cons.inj h
      rw [hinit x List.mem_cons_self] at hlast'
      cases hlast'
    | cons x' init' =>
      obtain ⟨rfl, htail⟩ := List.cons.inj h
      obtain ⟨rfl, rest⟩ := ih htail (fun y hy => hinit y (List.mem_cons_of_mem _ hy))
        (fun y hy => hinit' y (List.mem_cons_of_mem _ hy))
      exact ⟨rfl, rest⟩

/-- Records are cut into groups in one way only, because a group ends with its first record that is not
continued. -/
theorem flatten_append_inj {groups groups' : List (List DirectoryRecord)}
    {unfinished unfinished' : List DirectoryRecord}
    (h : groups.flatten ++ unfinished = groups'.flatten ++ unfinished')
    (hwhole : ∀ group ∈ groups, WholeChain opts group) (hopen : OpenChain opts unfinished)
    (hwhole' : ∀ group ∈ groups', WholeChain opts group) (hopen' : OpenChain opts unfinished') :
    groups = groups' ∧ unfinished = unfinished' := by
  induction groups generalizing groups' with
  | nil =>
    cases groups' with
    | nil => exact ⟨rfl, h⟩
    | cons group groups' =>
      obtain ⟨init, last, rfl, -, hlast⟩ := (hwhole' group List.mem_cons_self).exists_concat
      have hmem : last ∈ unfinished := by
        rw [List.flatten_nil, List.nil_append] at h
        rw [h]
        simp
      rw [hopen.continued last hmem] at hlast
      cases hlast
  | cons group groups ih =>
    obtain ⟨init, last, rfl, hinit, hlast⟩ := (hwhole group List.mem_cons_self).exists_concat
    cases groups' with
    | nil =>
      have hmem : last ∈ unfinished' := by
        rw [List.flatten_nil, List.nil_append] at h
        rw [← h]
        simp
      rw [hopen'.continued last hmem] at hlast
      cases hlast
    | cons group' groups' =>
      obtain ⟨init', last', rfl, hinit', hlast'⟩ :=
        (hwhole' group' List.mem_cons_self).exists_concat
      simp only [List.flatten_cons, List.append_assoc] at h
      obtain ⟨rfl, rfl, hlater⟩ := append_cons_inj h hinit hlast hinit' hlast'
      obtain ⟨rfl, rfl⟩ := ih hlater (fun g hg => hwhole g (List.mem_cons_of_mem _ hg))
        (fun g hg => hwhole' g (List.mem_cons_of_mem _ hg))
      exact ⟨rfl, rfl⟩

/-- There is one way at most to split records behind an open chain: the groups and what is left
unfinished are told by the records. -/
theorem SplitsAfter.unique {groups' : List (List DirectoryRecord)}
    {unfinished' : List DirectoryRecord} (h : SplitsAfter opts chain records groups unfinished)
    (h' : SplitsAfter opts chain records groups' unfinished') :
    groups = groups' ∧ unfinished = unfinished' :=
  flatten_append_inj (h.parts.symm.trans h'.parts) h.whole h.unfinished h'.whole h'.unfinished

/-! ## One record more -/

theorem not_asksForMore_nil : ¬ AsksForMore [] := by
  rintro ⟨r, hr, -⟩
  cases hr

/-- What stands before a record that is not continued does not matter to what is asked for behind it. -/
theorem asksForMore_append_ended (hlast : r.flags.isMultiExtent = false)
    (records : List DirectoryRecord) :
    AsksForMore (chain ++ [r] ++ records) ↔ AsksForMore records := by
  cases records with
  | nil => simp [AsksForMore, hlast]
  | cons next records =>
    rw [AsksForMore, AsksForMore, List.getLast?_append_of_ne_nil _ (List.cons_ne_nil _ _)]

/-- Records are undisturbed exactly if the first is no dot record while a chain asks for more, and those
behind it are undisturbed by what is open then. -/
theorem undisturbed_cons :
    Undisturbed opts chain (r :: records) ↔
      (r.isDot = true → ¬ AsksForMore chain) ∧
        Undisturbed opts (chain ++ listed opts [r]) records := by
  constructor
  · intro h
    refine ⟨fun hdot => ?_, fun before dot after hrecords hdot => ?_⟩
    · have hfirst := h [] r records rfl hdot
      rwa [listed, List.filter_nil, List.append_nil] at hfirst
    · have hlater := h (r :: before) dot after (by rw [hrecords]; rfl) hdot
      rwa [listed_cons, ← List.append_assoc] at hlater
  · rintro ⟨hfirst, hlater⟩ before dot after hrecords hdot
    cases before with
    | nil =>
      obtain ⟨rfl, -⟩ := List.cons.inj hrecords
      rw [listed, List.filter_nil, List.append_nil]
      exact hfirst hdot
    | cons next before =>
      obtain ⟨rfl, htail⟩ := List.cons.inj hrecords
      rw [listed_cons, ← List.append_assoc]
      exact hlater before dot after htail hdot

/-- A record that is not shown changes nothing, if no chain is open before it; otherwise it breaks the
chain. -/
theorem splitsAfter_hidden (hr : listed opts [r] = []) :
    SplitsAfter opts [] (r :: records) groups unfinished ↔
      SplitsAfter opts [] records groups unfinished := by
  have hlisted : listed opts (r :: records) = listed opts records := by rw [listed_cons, hr]; rfl
  have hundisturbed : Undisturbed opts [] (r :: records) ↔ Undisturbed opts [] records := by
    rw [undisturbed_cons, hr, List.append_nil]
    exact and_iff_right fun _ => not_asksForMore_nil
  constructor
  · intro h
    exact ⟨by rw [← hlisted]; exact h.parts, h.whole, h.unfinished, hundisturbed.mp h.undisturbed⟩
  · intro h
    exact ⟨by rw [hlisted]; exact h.parts, h.whole, h.unfinished, hundisturbed.mpr h.undisturbed⟩

/-- A record that is shown is one of the chain before it, as far as the cut goes: the chain is that much
longer. -/
theorem splitsAfter_shown (hdot : r.isDot = true → chain = []) (hr : listed opts [r] = [r]) :
    SplitsAfter opts chain (r :: records) groups unfinished ↔
      SplitsAfter opts (chain ++ [r]) records groups unfinished := by
  have hlisted : chain ++ listed opts (r :: records) = chain ++ [r] ++ listed opts records := by
    rw [listed_cons, hr, List.append_assoc]
  have hundisturbed :
      Undisturbed opts chain (r :: records) ↔ Undisturbed opts (chain ++ [r]) records := by
    rw [undisturbed_cons, hr]
    exact and_iff_right fun h => by rw [hdot h]; exact not_asksForMore_nil
  constructor
  · intro h
    exact ⟨by rw [← hlisted]; exact h.parts, h.whole, h.unfinished, hundisturbed.mp h.undisturbed⟩
  · intro h
    exact ⟨by rw [hlisted]; exact h.parts, h.whole, h.unfinished, hundisturbed.mpr h.undisturbed⟩

/-- Behind a whole group the records are cut on their own, as nothing of them belongs to it. -/
theorem splitsAfter_whole (hwhole : WholeChain opts (chain ++ [r]))
    (hlast : r.flags.isMultiExtent = false) :
    SplitsAfter opts (chain ++ [r]) records ((chain ++ [r]) :: groups) unfinished ↔
      Splits opts records groups unfinished := by
  have hundisturbed : Undisturbed opts (chain ++ [r]) records ↔ Undisturbed opts [] records := by
    simp only [Undisturbed, asksForMore_append_ended hlast, List.nil_append]
  have hparts : chain ++ [r] ++ listed opts records =
      ((chain ++ [r]) :: groups).flatten ++ unfinished ↔
        [] ++ listed opts records = groups.flatten ++ unfinished := by
    rw [List.flatten_cons, List.append_assoc (chain ++ [r]), List.append_cancel_left_eq,
      List.nil_append]
  constructor
  · intro h
    exact ⟨hparts.mp h.parts, fun group hgroup => h.whole group (List.mem_cons_of_mem _ hgroup),
      h.unfinished, hundisturbed.mp h.undisturbed⟩
  · intro h
    refine ⟨hparts.mpr h.parts, fun group hgroup => ?_, h.unfinished,
      hundisturbed.mpr h.undisturbed⟩
    rcases List.mem_cons.mp hgroup with rfl | hgroup
    · exact hwhole
    · exact h.whole group hgroup

end Chains

/-! ## The pass over the records -/

/-- The entry of records of one file, taken one after the other from `first` on. -/
def Entry.ofChain (opts : ListOptions) (first : DirectoryRecord) (more : List DirectoryRecord) :
    Entry :=
  { Entry.ofRecord opts first with
    size := ((first :: more).map fun r => r.size.toNat).sum
    extents := (first :: more).map fun r => ⟨r.extent, r.size⟩
    flags := ((first :: more).getLast (by simp)).flags }

/-- The entry that is at hand while a chain is open, which has the extents of all its records so far. -/
def openEntry (opts : ListOptions) : List DirectoryRecord → Option Entry
  | [] => none
  | first :: more => some (.ofChain opts first more)

section Pass

variable {opts : ListOptions} {chain records rest unfinished : List DirectoryRecord}
variable {groups : List (List DirectoryRecord)} {r first : DirectoryRecord}

/-- The entry that is made of a chain is an entry of these records: it has all their extents and the size
of all of them. -/
theorem isEntryOf_ofChain (opts : ListOptions) (first : DirectoryRecord)
    (more : List DirectoryRecord) :
    IsEntryOf opts (first :: more) (.ofChain opts first more) where
  extents := rfl
  size := rfl
  flags last hlast := by
    rw [List.getLast?_eq_some_getLast (List.cons_ne_nil _ _), Option.mem_some_iff] at hlast
    rw [← hlast]
    rfl
  kind _ h := by cases h; rfl
  name _ h := by cases h; rfl
  rawName _ h := by cases h; rfl
  lsn _ h := by cases h; rfl
  xa _ h := by cases h; rfl
  timestamp _ h := by cases h; rfl
  volumeSequenceNumber _ h := by cases h; rfl

/-- What is open while a directory is read is the entry of the chain that is open. -/
theorem isEntryOf_openEntry {e : Entry} (h : openEntry opts chain = some e) :
    IsEntryOf opts chain e := by
  cases chain with
  | nil => cases h
  | cons first more =>
    cases h
    exact isEntryOf_ofChain opts first more

/-- A record of the same name and kind makes the chain longer; any other is a mismatch. -/
theorem joinTo_ofChain (opts : ListOptions) (first r : DirectoryRecord)
    (more : List DirectoryRecord) :
    (Entry.ofRecord opts r).joinTo (some (.ofChain opts first more)) =
      if first.rawName opts.joliet = r.rawName opts.joliet ∧
          (Entry.ofRecord opts first).kind = (Entry.ofRecord opts r).kind then
        .ok (.ofChain opts first (more ++ [r]))
      else .error .multiExtentMismatch := by
  have hjoined : ({ Entry.ofChain opts first more with
      size := (Entry.ofChain opts first more).size + (Entry.ofRecord opts r).size
      extents := (Entry.ofChain opts first more).extents ++ (Entry.ofRecord opts r).extents
      flags := (Entry.ofRecord opts r).flags } : Entry) = .ofChain opts first (more ++ [r]) := by
    simp [Entry.ofChain, Entry.ofRecord, Nat.add_assoc]
  rw [Entry.joinTo, hjoined]
  rfl

/-- The kinds of two entries are the same if those of the records are, by their directory flags. -/
theorem kind_eq_iff (opts : ListOptions) (r s : DirectoryRecord) :
    (Entry.ofRecord opts r).kind = (Entry.ofRecord opts s).kind ↔
      r.flags.isDirectory = s.flags.isDirectory := by
  simp only [Entry.ofRecord]
  cases r.flags.isDirectory <;> cases s.flags.isDirectory <;> decide

/-- A record of the file that the open chain is of joins the chain, and the entry is that of the longer
one. -/
theorem joinTo_openEntry (halike : ∀ x ∈ chain, x.Alike opts r) :
    ∃ e, (Entry.ofRecord opts r).joinTo (openEntry opts chain) = .ok e ∧
      openEntry opts (chain ++ [r]) = some e := by
  cases chain with
  | nil => exact ⟨_, rfl, rfl⟩
  | cons first more =>
    have hfirst : first.Alike opts r := halike first List.mem_cons_self
    refine ⟨.ofChain opts first (more ++ [r]), ?_, rfl⟩
    rw [openEntry, joinTo_ofChain, if_pos ⟨hfirst.1, (kind_eq_iff ..).mpr hfirst.2⟩]

/-- A record of another file breaks the chain, and the listing fails with `multiExtentMismatch`. -/
theorem joinTo_openEntry_error (hchain : OpenChain opts chain)
    (hunlike : ¬ ∀ x ∈ chain, x.Alike opts r) :
    (Entry.ofRecord opts r).joinTo (openEntry opts chain) = .error .multiExtentMismatch := by
  cases chain with
  | nil => exact absurd (fun x hx => (nomatch hx)) hunlike
  | cons first more =>
    rw [openEntry, joinTo_ofChain, if_neg]
    rintro ⟨hname, hkind⟩
    refine hunlike fun x hx => ?_
    have hfirst := hchain.alike x hx first List.mem_cons_self
    exact ⟨hfirst.1.trans hname, hfirst.2.trans ((kind_eq_iff ..).mp hkind)⟩

/-! ### One record of the pass -/

/-- An entry is open exactly if there are records in the chain. -/
theorem isSome_openEntry (opts : ListOptions) (chain : List DirectoryRecord) :
    (openEntry opts chain).isSome = true ↔ chain ≠ [] := by
  cases chain <;> simp [openEntry]

/-- The record of a directory itself or of its parent breaks an open chain, also if it is not shown. -/
theorem assemble_dot (hdot : r.isDot = true) (hne : chain ≠ []) (offset : Nat)
    (items : List WalkItem) :
    assemble opts (openEntry opts chain) (.ok (offset, r) :: items) =
      .error .multiExtentMismatch := by
  have hbreaks : (r.isDot && (openEntry opts chain).isSome) = true := by
    rw [hdot, (isSome_openEntry opts chain).mpr hne]
    rfl
  rw [assemble, if_pos hbreaks]

/-- A record that is not shown is passed over, as long as no chain is open where it stands. -/
theorem assemble_hidden (hr : listed opts [r] = []) (offset : Nat) (items : List WalkItem) :
    assemble opts none (.ok (offset, r) :: items) = assemble opts none items := by
  have hhidden : (r.isDot && !opts.includeDots) = true := by simpa [listed] using hr
  rw [assemble, if_neg (by simp), if_pos hhidden]

/-- A record that is shown joins the open chain, which it ends or not, and the listing goes on from
there. -/
theorem assemble_shown (hdot : r.isDot = true → chain = []) (hr : listed opts [r] = [r])
    (offset : Nat) (items : List WalkItem) :
    assemble opts (openEntry opts chain) (.ok (offset, r) :: items) = (do
      let entry ← (Entry.ofRecord opts r).joinTo (openEntry opts chain)
      if r.flags.isMultiExtent then assemble opts (some entry) items
      else return entry :: (← assemble opts none items)) := by
  have hgoes : ¬ (r.isDot && (openEntry opts chain).isSome) = true := by
    rw [Bool.and_eq_true, isSome_openEntry]
    exact fun h => h.2 (hdot h.1)
  have hshown : ¬ (r.isDot && !opts.includeDots) = true := by
    intro hhidden
    have hnil : listed opts [r] = [] := by simpa [listed] using hhidden
    rw [hnil] at hr
    cases hr
  rw [assemble, if_neg hgoes, if_neg hshown]

/-- Records of which none is continued are listed as an entry each, in their order. -/
theorem assemble_of_ended {items : List (Nat × DirectoryRecord)}
    (h : ∀ r ∈ items.map Prod.snd, r.flags.isMultiExtent = false) :
    assemble opts none (items.map .ok) =
      .ok ((listed opts (items.map Prod.snd)).map (.ofRecord opts)) := by
  induction items with
  | nil => simp [assemble, listed]
  | cons item items ih =>
    obtain ⟨offset, r⟩ := item
    rw [List.map_cons] at h
    obtain ⟨hended, hitems⟩ := List.forall_mem_cons.mp h
    rw [List.map_cons, List.map_cons, listed_cons, List.map_append]
    rcases listed_singleton opts r with ⟨-, hhidden⟩ | hshown
    · rw [hhidden, assemble_hidden hhidden, ih hitems]
      rfl
    · have hnone : openEntry opts [] = none := rfl
      rw [hshown, ← hnone, assemble_shown (fun _ => rfl) hshown, hnone, hended, ih hitems]
      rfl

/-! ### The whole pass -/

/-- What a pass over the records that follow an open chain comes to, where `tail` is left to be gone
through behind them. -/
def PassesTo (opts : ListOptions) (chain records : List DirectoryRecord) (tail : List WalkItem)
    (result : Except FormatError (List Entry)) : Prop :=
  (∃ groups unfinished entries, SplitsAfter opts chain records groups unfinished ∧
    List.Forall₂ (IsEntryOf opts) groups entries ∧
    result = (assemble opts (openEntry opts unfinished) tail).map (entries ++ ·)) ∨
  ((∀ groups unfinished, ¬ SplitsAfter opts chain records groups unfinished) ∧
    result = .error .multiExtentMismatch)

/-- The pass makes an entry of each group into which the records are cut, and fails where they are
not cut into groups. -/
theorem assemble_append (hchain : OpenChain opts chain) (items : List (Nat × DirectoryRecord))
    (tail : List WalkItem) :
    PassesTo opts chain (items.map Prod.snd) tail
      (assemble opts (openEntry opts chain) (items.map .ok ++ tail)) := by
  induction items generalizing chain with
  | nil =>
    refine .inl ⟨[], chain, [], ⟨?_, fun _ h => (nomatch h), hchain, ?_⟩, .nil, ?_⟩
    · simp [listed]
    · intro before dot after h
      simp at h
    · rw [List.map_nil, List.nil_append]
      cases assemble opts (openEntry opts chain) tail <;> rfl
  | cons item items ih =>
    obtain ⟨offset, r⟩ := item
    rw [List.map_cons, List.map_cons, List.cons_append]
    by_cases hbreaks : r.isDot = true ∧ chain ≠ []
    · refine .inr ⟨fun groups unfinished h => ?_, assemble_dot hbreaks.1 hbreaks.2 _ _⟩
      exact (undisturbed_cons.mp h.undisturbed).1 hbreaks.1 (hchain.asksForMore hbreaks.2)
    have hdot : r.isDot = true → chain = [] := fun h => by_contra fun hne => hbreaks ⟨h, hne⟩
    rcases listed_singleton opts r with ⟨hhidden, hr⟩ | hr
    · obtain rfl := hdot hhidden
      rw [openEntry, assemble_hidden hr]
      simp only [PassesTo, splitsAfter_hidden hr]
      exact ih hchain
    rw [assemble_shown hdot hr]
    by_cases halike : ∀ x ∈ chain, x.Alike opts r
    · obtain ⟨e, hjoin, hentry⟩ := joinTo_openEntry halike
      rw [hjoin]
      cases hmore : r.flags.isMultiExtent with
      | true =>
        have hlater := ih (hchain.append halike hmore)
        rw [hentry] at hlater
        simp only [PassesTo, splitsAfter_shown hdot hr]
        exact hlater
      | false =>
        have hwhole := hchain.close halike hmore
        show PassesTo opts chain (r :: items.map Prod.snd) tail (do
          return e :: (← assemble opts none (items.map .ok ++ tail)))
        rcases ih .nil with ⟨groups, unfinished, entries, hsplit, hentries, hrun⟩ | ⟨hnone, hrun⟩
        · refine .inl ⟨(chain ++ [r]) :: groups, unfinished, e :: entries, ?_, ?_, ?_⟩
          · exact (splitsAfter_shown hdot hr).mpr ((splitsAfter_whole hwhole hmore).mpr hsplit)
          · exact .cons (isEntryOf_openEntry hentry) hentries
          · rw [openEntry] at hrun
            rw [hrun]
            cases assemble opts (openEntry opts unfinished) tail <;> rfl
        · refine .inr ⟨fun groups unfinished h => ?_, ?_⟩
          · obtain ⟨later, rfl⟩ := h.groups_eq hchain hr hmore
            exact hnone later unfinished
              ((splitsAfter_whole hwhole hmore).mp ((splitsAfter_shown hdot hr).mp h))
          · rw [openEntry] at hrun
            rw [hrun]
            rfl
    -- A record of another file.
    · refine .inr ⟨fun groups unfinished h => halike (h.alike hchain hr), ?_⟩
      rw [joinTo_openEntry_error hchain halike]
      rfl

end Pass

/-! ## Listings -/

section Listings

variable {opts : ListOptions} {extent : Bytes} {items : List (Nat × DirectoryRecord)}
variable {tail : List WalkItem}

/-- A listing makes an entry of each group, and goes on with what is left open behind them. -/
theorem exists_entries_of_splits {groups : List (List DirectoryRecord)}
    {unfinished : List DirectoryRecord} (hwalk : recordsOf opts.policy extent = items.map .ok ++ tail)
    (h : Splits opts (items.map Prod.snd) groups unfinished) :
    ∃ entries, List.Forall₂ (IsEntryOf opts) groups entries ∧
      parseDirectory opts extent =
        (assemble opts (openEntry opts unfinished) tail).map (entries ++ ·) := by
  rw [parseDirectory, hwalk]
  rcases assemble_append OpenChain.nil items tail with
    ⟨groups', unfinished', entries, hsplit, hentries, hrun⟩ | ⟨hnone, -⟩
  · obtain ⟨rfl, rfl⟩ := h.unique hsplit
    exact ⟨entries, hentries, hrun⟩
  · exact absurd h (hnone groups unfinished)

/-- A listing fails where its records are not cut into groups: some chain is broken by another record. -/
theorem parseDirectory_of_not_splits
    (hwalk : recordsOf opts.policy extent = items.map .ok ++ tail)
    (h : ¬ ∃ groups unfinished, Splits opts (items.map Prod.snd) groups unfinished) :
    parseDirectory opts extent = .error .multiExtentMismatch := by
  rw [parseDirectory, hwalk]
  rcases assemble_append OpenChain.nil items tail with
    ⟨groups, unfinished, -, hsplit, -⟩ | ⟨-, hrun⟩
  · exact absurd ⟨groups, unfinished, hsplit⟩ h
  · exact hrun

/-- What is listed is one entry for each group of the records, and the walk met no fault. -/
theorem splits_of_parseDirectory {fault : Option FormatError} {entries : List Entry}
    (hwalk : recordsOf opts.policy extent = items.map .ok ++ (fault.map .error).toList)
    (hlisted : parseDirectory opts extent = .ok entries) :
    fault = none ∧ ∃ groups, Splits opts (items.map Prod.snd) groups [] ∧
      List.Forall₂ (IsEntryOf opts) groups entries := by
  by_cases hsplits : ∃ groups unfinished, Splits opts (items.map Prod.snd) groups unfinished
  · obtain ⟨groups, unfinished, hsplit⟩ := hsplits
    obtain ⟨entries', hentries, hrun⟩ := exists_entries_of_splits hwalk hsplit
    cases fault with
    | some cause =>
      have hfault : parseDirectory opts extent = .error cause := by
        rw [hrun]
        cases unfinished <;> rfl
      cases hfault.symm.trans hlisted
    | none =>
      cases unfinished with
      | nil =>
        have hsame : entries' ++ [] = entries := Except.ok.inj (hrun.symm.trans hlisted)
        rw [List.append_nil] at hsame
        exact ⟨rfl, groups, hsplit, hsame ▸ hentries⟩
      | cons first more => cases hrun.symm.trans hlisted
  · cases (parseDirectory_of_not_splits hwalk hsplits).symm.trans hlisted

/-- Every entry is made of one of the groups, so that nothing is listed which is not recorded. -/
theorem exists_group_of_mem {groups : List (List DirectoryRecord)} {entries : List Entry} {e : Entry}
    (h : List.Forall₂ (IsEntryOf opts) groups entries) (he : e ∈ entries) :
    ∃ group ∈ groups, IsEntryOf opts group e := by
  induction h with
  | nil => cases he
  | @cons group first groups entries hfirst hrest ih =>
    rcases List.mem_cons.mp he with rfl | he
    · exact ⟨group, List.mem_cons_self, hfirst⟩
    · obtain ⟨later, hlater, hentry⟩ := ih he
      exact ⟨later, List.mem_cons_of_mem _ hlater, hentry⟩

/-- Every group makes one of the entries, so that nothing recorded is left out. -/
theorem exists_entry_of_mem {groups : List (List DirectoryRecord)} {entries : List Entry}
    {group : List DirectoryRecord} (h : List.Forall₂ (IsEntryOf opts) groups entries)
    (hgroup : group ∈ groups) : ∃ e ∈ entries, IsEntryOf opts group e := by
  obtain ⟨index, hindex, rfl⟩ := List.mem_iff_getElem.mp hgroup
  have hinside : index < entries.length := h.length_eq ▸ hindex
  exact ⟨entries[index], List.getElem_mem hinside, h.get hindex hinside⟩

/-- An entry has the name of each of its records, as those of one file have the same. -/
theorem IsEntryOf.rawName_eq {chain : List DirectoryRecord} {e : Entry} {r : DirectoryRecord}
    (h : IsEntryOf opts chain e) (hchain : WholeChain opts chain) (hr : r ∈ chain) :
    e.rawName = r.rawName opts.joliet := by
  cases chain with
  | nil => exact absurd rfl hchain.nonempty
  | cons first more =>
    rw [h.rawName first rfl]
    exact (hchain.alike first List.mem_cons_self r hr).1

/-- A record that is listed is one of those of an entry: once its directory can be listed, nothing but
dot records can be missing. -/
theorem exists_entry_of_mem_recordsOf {entries : List Entry} {entry : Nat × DirectoryRecord}
    (hlisted : parseDirectory opts extent = .ok entries)
    (hmem : .ok entry ∈ recordsOf opts.policy extent) (hdot : entry.2.isDot = false) :
    ∃ e ∈ entries, ∃ chain, WholeChain opts chain ∧ IsEntryOf opts chain e ∧ entry.2 ∈ chain := by
  obtain ⟨items, fault, hwalk⟩ := Cursor.items_eq_records opts.policy (.ofExtent extent)
  obtain ⟨rfl, groups, hsplit, hentries⟩ := splits_of_parseDirectory hwalk hlisted
  have hwalk : recordsOf opts.policy extent = items.map .ok ++ [] := hwalk
  have hshown : entry.2 ∈ listed opts (items.map Prod.snd) := by
    rw [hwalk, List.append_nil] at hmem
    obtain ⟨item, hitem, heq⟩ := List.mem_map.mp hmem
    cases heq
    exact List.mem_filter.mpr ⟨List.mem_map_of_mem hitem, by rw [hdot]; rfl⟩
  have hparts := hsplit.parts
  rw [List.nil_append, List.append_nil] at hparts
  rw [hparts] at hshown
  obtain ⟨chain, hchain, hr⟩ := List.mem_flatten.mp hshown
  obtain ⟨e, he, hentry⟩ := exists_entry_of_mem hentries hchain
  exact ⟨e, he, chain, hsplit.whole chain hchain, hentry, hr⟩

/-- An entry that is listed is made of all records of one file, from the first to the one that is not
continued. -/
theorem exists_chain_of_parseDirectory {entries : List Entry} {e : Entry}
    (hlisted : parseDirectory opts extent = .ok entries) (he : e ∈ entries) :
    ∃ chain, WholeChain opts chain ∧ IsEntryOf opts chain e := by
  obtain ⟨items, fault, hwalk⟩ := Cursor.items_eq_records opts.policy (.ofExtent extent)
  obtain ⟨-, groups, hsplit, hentries⟩ := splits_of_parseDirectory hwalk hlisted
  obtain ⟨chain, hchain, hentry⟩ := exists_group_of_mem hentries he
  exact ⟨chain, hsplit.whole chain hchain, hentry⟩

end Listings

/-- **A listing loses nothing and repeats nothing.** The walk over an extent gives records and at
most one fault behind them. If there is no fault and the records that are listed are cut into
consecutive groups, one for each file, the listing is one entry for each group, in their order.
Otherwise it fails: with the fault of the walk, unless the records before it are not cut into groups
already. -/
theorem parseDirectory_chains (opts : ListOptions) (extent : Bytes) :
    ∃ (items : List (Nat × DirectoryRecord)) (fault : Option FormatError),
      recordsOf opts.policy extent = items.map .ok ++ (fault.map .error).toList ∧
      let records := items.map Prod.snd
      ((∃ entries, parseDirectory opts extent = .ok entries) ↔
        fault = none ∧ ∃ groups, Splits opts records groups []) ∧
      (∀ groups entries, Splits opts records groups [] → parseDirectory opts extent = .ok entries →
        List.Forall₂ (IsEntryOf opts) groups entries) ∧
      (fault = none → (¬ ∃ groups, Splits opts records groups []) →
        parseDirectory opts extent = .error .multiExtentMismatch) ∧
      (∀ cause ∈ fault,
        ((∃ groups unfinished, Splits opts records groups unfinished) →
          parseDirectory opts extent = .error cause) ∧
        ((¬ ∃ groups unfinished, Splits opts records groups unfinished) →
          parseDirectory opts extent = .error .multiExtentMismatch)) := by
  obtain ⟨items, fault, hwalk⟩ := Cursor.items_eq_records opts.policy (.ofExtent extent)
  refine ⟨items, fault, hwalk, ?_⟩
  -- Where the records are cut into groups, the fault decides, and then the chain that is left open.
  have hfault (cause : FormatError) (hcause : fault = some cause)
      {groups : List (List DirectoryRecord)} {unfinished : List DirectoryRecord}
      (h : Splits opts (items.map Prod.snd) groups unfinished) :
      parseDirectory opts extent = .error cause := by
    obtain ⟨entries, -, hrun⟩ := exists_entries_of_splits hwalk h
    rw [hrun, hcause]
    cases unfinished <;> rfl
  have hopen (hnone : fault = none) {groups : List (List DirectoryRecord)} {first : DirectoryRecord}
      {more : List DirectoryRecord} (h : Splits opts (items.map Prod.snd) groups (first :: more)) :
      parseDirectory opts extent = .error .multiExtentMismatch := by
    obtain ⟨entries, -, hrun⟩ := exists_entries_of_splits hwalk h
    rw [hrun, hnone]
    rfl
  have hwhole (hnone : fault = none) {groups : List (List DirectoryRecord)}
      (h : Splits opts (items.map Prod.snd) groups []) :
      ∃ entries, parseDirectory opts extent = .ok entries := by
    obtain ⟨entries, -, hrun⟩ := exists_entries_of_splits hwalk h
    rw [hrun, hnone]
    exact ⟨_, rfl⟩
  have hbroken := parseDirectory_of_not_splits hwalk
  refine ⟨⟨?_, ?_⟩, ?_, ?_, ?_⟩
  · rintro ⟨entries, hok⟩
    obtain ⟨hnone, groups, hsplit, -⟩ := splits_of_parseDirectory hwalk hok
    exact ⟨hnone, groups, hsplit⟩
  · rintro ⟨hnone, groups, hsplit⟩
    exact hwhole hnone hsplit
  · intro groups entries hsplit hok
    obtain ⟨-, groups', hsplit', hentries⟩ := splits_of_parseDirectory hwalk hok
    obtain ⟨rfl, -⟩ := hsplit.unique hsplit'
    exact hentries
  · intro hnone hno
    by_cases hsplits : ∃ groups unfinished, Splits opts (items.map Prod.snd) groups unfinished
    · obtain ⟨groups, unfinished, hsplit⟩ := hsplits
      cases unfinished with
      | nil => exact absurd ⟨groups, hsplit⟩ hno
      | cons first more => exact hopen hnone hsplit
    · exact hbroken hsplits
  · intro cause hcause
    refine ⟨?_, hbroken⟩
    rintro ⟨groups, unfinished, hsplit⟩
    exact hfault cause hcause hsplit

end Ecma119
