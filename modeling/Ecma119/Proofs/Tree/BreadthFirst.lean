import Ecma119.Proofs.Tree.Listing
import Ecma119.Proofs.Tree.Trail
import Ecma119.Tree.Owner

/-!
# The search of the tree

The search for the owner of a sector lists directories, one visit for each. `Explored` is what holds
between two visits: the directories that have been visited and those that wait, taken together,
start at different sectors and stand level by level, each has a trail that leads to it, and
everything that was found in the listings so far has been passed over or waits. A visit keeps it
(`Explored.visit`), so a whole search does (`run_searchOwner`), and `ownerWithPath_breadthFirst` is
what that comes to.
-/

namespace Ecma119.Tree

/-! ## One directory -/

section Visit

variable {lsn : UInt32} {path : String} {f g : Frontier} {entries : List Entry}

/-- What is found in a directory is its first entry that has the sector, under the path of the directory.
-/
theorem Frontier.visit_eq_inl {found : String × Entry}
    (h : f.visit lsn path entries = .inl found) :
    ∃ before e after, entries = before ++ e :: after ∧ found = (path ++ "/" ++ e.name, e) ∧
      e.containsLsn lsn = true ∧ ∀ x ∈ before, x.containsLsn lsn = false := by
  induction entries generalizing f with
  | nil => cases h
  | cons e rest ih =>
    rw [visit] at h
    split at h
    · next he =>
      cases h
      exact ⟨[], e, rest, rfl, rfl, he, List.forall_mem_nil _⟩
    · next he =>
      have hpassed : e.containsLsn lsn = false := Bool.eq_false_iff.mpr he
      have hrest : ∃ f', Frontier.visit lsn path f' rest = .inl found := by
        split at h
        · exact ⟨_, h⟩
        · exact ⟨_, h⟩
      obtain ⟨f', hrest⟩ := hrest
      obtain ⟨before, x, after, rfl, hfound, hx, hbefore⟩ := ih hrest
      exact ⟨e :: before, x, after, rfl, hfound, hx, List.forall_mem_cons.mpr ⟨hpassed, hbefore⟩⟩

/-- The directories `fresh` among the entries found at a path have been added to a search. -/
structure Frontier.Grows (path : String) (entries fresh : List Entry) (f g : Frontier) : Prop where
  waiting_eq : g.waiting = f.waiting ++ fresh.map fun e => (path ++ "/" ++ e.name, e)
  mem_seen : ∀ x, x ∈ g.seen ↔ x ∈ f.seen ∨ x ∈ fresh.map Entry.lsn
  nodup : (fresh.map Entry.lsn).Nodup
  unseen : ∀ e ∈ fresh, e.lsn ∉ f.seen
  subset : fresh ⊆ entries
  closed : ∀ e ∈ entries, e.isDirectory = true → e.lsn ∈ g.seen

/-- If no entry of a directory has the sector, those that are directories not seen before are
added. -/
theorem Frontier.visit_eq_inr (h : f.visit lsn path entries = .inr g) :
    (∀ e ∈ entries, e.containsLsn lsn = false) ∧ ∃ fresh, Grows path entries fresh f g := by
  induction entries generalizing f with
  | nil =>
    cases h
    exact ⟨fun e he => (nomatch he), [], by simp, by simp, .nil, fun e he => (nomatch he),
      List.Subset.refl _, fun e he => (nomatch he)⟩
  | cons e rest ih =>
    rw [visit] at h
    split at h
    · cases h
    next he =>
    have hpassed : e.containsLsn lsn = false := Bool.eq_false_iff.mpr he
    split at h
    -- A directory that is new.
    · next hnew =>
      obtain ⟨hdirectory, hunseen⟩ : e.isDirectory = true ∧ e.lsn ∉ f.seen := by
        simpa using hnew
      obtain ⟨hrest, fresh, hgrows⟩ := ih h
      refine ⟨List.forall_mem_cons.mpr ⟨hpassed, hrest⟩, e :: fresh, ?_, ?_, ?_, ?_, ?_, ?_⟩
      · rw [hgrows.waiting_eq, List.map_cons, List.append_assoc, List.singleton_append]
      · intro x
        rw [hgrows.mem_seen, List.mem_cons, List.map_cons, List.mem_cons]
        exact or_assoc.trans or_left_comm
      · refine List.nodup_cons.mpr ⟨fun hmem => ?_, hgrows.nodup⟩
        obtain ⟨x, hx, hsame⟩ := List.mem_map.mp hmem
        exact hgrows.unseen x hx (by rw [hsame]; exact List.mem_cons_self)
      · exact List.forall_mem_cons.mpr ⟨hunseen, fun x hx hseen =>
          hgrows.unseen x hx (List.mem_cons_of_mem _ hseen)⟩
      · exact List.cons_subset_cons e hgrows.subset
      · exact List.forall_mem_cons.mpr
          ⟨fun _ => (hgrows.mem_seen _).mpr (.inl List.mem_cons_self), hgrows.closed⟩
    -- A file, or a directory that has been seen.
    · next hold =>
      obtain ⟨hrest, fresh, hgrows⟩ := ih h
      refine ⟨List.forall_mem_cons.mpr ⟨hpassed, hrest⟩, fresh, hgrows.waiting_eq, hgrows.mem_seen,
        hgrows.nodup, hgrows.unseen, List.subset_cons_of_subset e hgrows.subset, ?_⟩
      refine List.forall_mem_cons.mpr ⟨fun hdirectory => ?_, hgrows.closed⟩
      have hseen : e.lsn ∈ f.seen := by simpa [hdirectory] using hold
      exact (hgrows.mem_seen _).mpr (.inl hseen)

end Visit

/-! ## Visits -/

/-- A directory, and the entries that lead to it from where a search starts. -/
structure Lead where
  trail : List Entry
  directory : Entry

namespace Lead

def lsn (l : Lead) : UInt32 := l.directory.lsn

def depth (l : Lead) : Nat := l.trail.length

end Lead

structure Visit extends Lead where
  outcome : Except Error (List Entry)

/-- The directory is listed, and none of its entries has the sector. -/
def Visit.PassesOver (lsn : UInt32) (v : Visit) : Prop :=
  ∃ entries, v.outcome = .ok entries ∧ ∀ e ∈ entries, e.containsLsn lsn = false

/-- The entries were found in the directory on one of the visits. -/
def Listed (visits : List Visit) (directory : Entry) (entries : List Entry) : Prop :=
  ∃ v ∈ visits, v.directory = directory ∧ v.outcome = .ok entries

/-- What was listed when a directory was visited stays so, whatever is visited later. -/
theorem Listed.append {visits : List Visit} {directory : Entry} {entries : List Entry}
    (h : Listed visits directory entries) (later : List Visit) :
    Listed (visits ++ later) directory entries := by
  obtain ⟨v, hv, hlisted⟩ := h
  exact ⟨v, List.mem_append_left _ hv, hlisted⟩

/-- What holds between two visits of a search that started at `root`: `visits` have been made, and
`leads` wait. -/
structure Explored (lsn : UInt32) (root : Entry) (visits : List Visit) (leads : List Lead)
    (f : Frontier) : Prop where
  waiting_eq : f.waiting = leads.map fun l => (pathOf l.trail, l.directory)
  start : ⟨[], root⟩ ∈ visits.map Visit.toLead ++ leads
  mem_seen : ∀ x, x ∈ f.seen ↔ x ∈ (visits.map Visit.toLead ++ leads).map Lead.lsn
  nodup : ((visits.map Visit.toLead ++ leads).map Lead.lsn).Nodup
  levels : (visits.map Visit.toLead ++ leads).Pairwise fun a b => a.depth ≤ b.depth
  /-- What waits is on one level or on two. -/
  spread : ∀ first ∈ leads.head?, ∀ l ∈ leads, l.depth ≤ first.depth + 1
  reached : ∀ l ∈ visits.map Visit.toLead ++ leads, Leads (Listed visits) root l.trail l.directory
  passed : ∀ v ∈ visits, v.PassesOver lsn
  closed : ∀ v ∈ visits, ∀ entries, v.outcome = .ok entries → ∀ e ∈ entries,
    e.isDirectory = true → e.lsn ∈ f.seen

section Explored

variable {lsn : UInt32} {root : Entry} {visits : List Visit} {first : Lead} {leads : List Lead}
variable {f g : Frontier} {entries : List Entry}

/-- Before the first visit only the root is waiting, with the empty path, and nothing has been explored.
-/
theorem explored_start (lsn : UInt32) (root : Entry) :
    Explored lsn root [] [⟨[], root⟩] ⟨[root.lsn], [("", root)]⟩ where
  waiting_eq := rfl
  start := List.mem_singleton_self _
  mem_seen x := by simp [Lead.lsn]
  nodup := by simp
  levels := by simp
  spread := by simp
  reached := by simpa using Leads.start
  passed v hv := nomatch hv
  closed v hv := nomatch hv

/-- Whatever is known of is one level below the next directory at most, which keeps visits in order of
depth. -/
theorem Explored.depth_le (h : Explored lsn root visits (first :: leads) f) :
    ∀ l ∈ visits.map Visit.toLead ++ first :: leads, l.depth ≤ first.depth + 1 := by
  obtain ⟨-, -, hbefore⟩ := List.pairwise_append.mp h.levels
  intro l hl
  rcases List.mem_append.mp hl with hl | hl
  · exact Nat.le_succ_of_le (hbefore l hl first List.mem_cons_self)
  · exact h.spread first rfl l hl

/-- A visit on which nothing is found keeps what holds between visits. This is the step of the search. -/
theorem Explored.visit (h : Explored lsn root visits (first :: leads) f)
    (hvisit : Frontier.visit lsn (pathOf first.trail)
      { f with waiting := leads.map fun l => (pathOf l.trail, l.directory) } entries = .inr g) :
    ∃ later, Explored lsn root (visits ++ [Visit.mk first (.ok entries)]) (leads ++ later) g := by
  obtain ⟨hpassed, fresh, hgrows⟩ := Frontier.visit_eq_inr hvisit
  have hlater : ∃ later : List Lead, later = fresh.map fun e => ⟨first.trail ++ [e], e⟩ := ⟨_, rfl⟩
  obtain ⟨later, hlater⟩ := hlater
  -- The directory that is visited was known of before, so the directories known of only become more.
  have hknown : (visits ++ [Visit.mk first (.ok entries)]).map Visit.toLead ++ (leads ++ later) =
      visits.map Visit.toLead ++ first :: leads ++ later := by simp
  have hlsns : later.map Lead.lsn = fresh.map Entry.lsn := by
    rw [hlater, List.map_map]
    rfl
  have hdepth : ∀ l ∈ later, l.depth = first.depth + 1 := by
    intro l hl
    rw [hlater] at hl
    obtain ⟨e, -, rfl⟩ := List.mem_map.mp hl
    exact List.length_append
  refine ⟨later, ?_, ?_, ?_, ?_, ?_, ?_, ?_, ?_, ?_⟩
  · rw [hgrows.waiting_eq, List.map_append, hlater, List.map_map]
    simp only [Function.comp_def, pathOf_concat]
  · rw [hknown]
    exact List.mem_append_left _ h.start
  · intro x
    rw [hgrows.mem_seen, hknown, List.map_append, List.mem_append, hlsns]
    exact or_congr_left (h.mem_seen x)
  · rw [hknown, List.map_append, hlsns]
    refine List.nodup_append.mpr ⟨h.nodup, hgrows.nodup, ?_⟩
    rintro x hx _ hfresh rfl
    obtain ⟨e, he, rfl⟩ := List.mem_map.mp hfresh
    exact hgrows.unseen e he ((h.mem_seen _).mpr hx)
  · rw [hknown]
    refine List.pairwise_append.mpr ⟨h.levels, ?_, ?_⟩
    · exact List.pairwise_of_forall_mem_list fun a ha b hb =>
        Nat.le_of_eq ((hdepth a ha).trans (hdepth b hb).symm)
    · intro a ha b hb
      rw [hdepth b hb]
      exact h.depth_le a ha
  · -- The next directory is on the level of the one visited, or else all that wait are new.
    intro next hnext l hl
    have hnear : l.depth ≤ first.depth + 1 := by
      rcases List.mem_append.mp hl with hl | hl
      · exact h.spread first rfl l (List.mem_cons_of_mem _ hl)
      · exact Nat.le_of_eq (hdepth l hl)
    refine Nat.le_trans hnear (Nat.succ_le_succ ?_)
    have hmem : next ∈ leads ++ later := List.mem_of_mem_head? hnext
    rcases List.mem_append.mp hmem with hnext | hnext
    · obtain ⟨-, hwaiting, -⟩ := List.pairwise_append.mp h.levels
      exact (List.pairwise_cons.mp hwaiting).1 next hnext
    · rw [hdepth next hnext]
      exact Nat.le_succ _
  · have hmono : ∀ directory found, Listed visits directory found →
        Listed (visits ++ [Visit.mk first (.ok entries)]) directory found := fun _ _ hl => hl.append _
    rw [hknown]
    intro l hl
    rcases List.mem_append.mp hl with hl | hl
    · exact (h.reached l hl).mono hmono
    · rw [hlater] at hl
      obtain ⟨e, he, rfl⟩ := List.mem_map.mp hl
      have hfirst := (h.reached first (by simp)).mono hmono
      exact hfirst.step ⟨Visit.mk first (.ok entries), by simp, rfl, rfl⟩ (hgrows.subset he)
  · intro v hv
    rcases List.mem_append.mp hv with hv | hv
    · exact h.passed v hv
    · obtain rfl := List.mem_singleton.mp hv
      exact ⟨entries, rfl, hpassed⟩
  · intro v hv found hfound e he hdirectory
    rcases List.mem_append.mp hv with hv | hv
    · exact (hgrows.mem_seen _).mpr (.inl (h.closed v hv found hfound e he hdirectory))
    · obtain rfl := List.mem_singleton.mp hv
      cases hfound
      exact hgrows.closed e he hdirectory

end Explored

/-! ## The whole search -/

/-- How a search that started at `root` ends behind its visits. -/
inductive Ending (lsn : UInt32) (root : Entry) :
    List Visit → Except Error (String × Entry) → Prop
  /-- On the last visit an entry is found that has the sector, the first one there is. -/
  | found {passed : List Visit} {l : Lead} {before after : List Entry} {e : Entry}
      (hpassed : ∀ v ∈ passed, v.PassesOver lsn) (he : e.containsLsn lsn = true)
      (hbefore : ∀ x ∈ before, x.containsLsn lsn = false) :
      Ending lsn root (passed ++ [⟨l, .ok (before ++ e :: after)⟩])
        (.ok (pathOf (l.trail ++ [e]), e))
  /-- The last directory cannot be listed. -/
  | failed {passed : List Visit} {l : Lead} {failure : Error}
      (hpassed : ∀ v ∈ passed, v.PassesOver lsn) (hfailure : failure ≠ .notFound) :
      Ending lsn root (passed ++ [⟨l, .error failure⟩]) (.error failure)
  /-- Every directory found has been visited. -/
  | nowhere {visits : List Visit} (hpassed : ∀ v ∈ visits, v.PassesOver lsn)
      (hstart : ⟨[], root⟩ ∈ visits.map Visit.toLead)
      (hclosed : ∀ v ∈ visits, ∀ entries, v.outcome = .ok entries → ∀ e ∈ entries,
        e.isDirectory = true → e.lsn ∈ visits.map fun v => v.lsn) :
      Ending lsn root visits (.error .notFound)

/-- No directory is visited twice, none before one that is further up, and each has a trail that
leads to it from `root`. -/
structure Orderly (root : Entry) (visits : List Visit) : Prop where
  once : (visits.map fun v => v.lsn).Nodup
  levels : (visits.map fun v => v.depth).Pairwise (· ≤ ·)
  reached : ∀ v ∈ visits, Leads (Listed visits) root v.trail v.directory

section Run

variable {δ : Type} [BlockDevice δ] {opts : ListOptions} {lsn : UInt32} {root : Entry}
variable {visits : List Visit} {leads : List Lead} {f : Frontier}

/-- Lists directories one after the other, whatever each of them comes to. -/
def listEach (opts : ListOptions) (directories : List Entry) :
    StateM (SectorSource δ) (List (Except Error (List Entry))) :=
  directories.mapM fun directory => (list opts directory).run

/-- Directories are listed one after the other, each from the source that the one before has left. -/
theorem run_listEach_cons {directory : Entry} {rest : List Entry} {s s₁ s₂ : SectorSource δ}
    {outcome : Except Error (List Entry)} {outcomes : List (Except Error (List Entry))}
    (hfirst : (list opts directory).run.run s = (outcome, s₁))
    (hrest : (listEach opts rest).run s₁ = (outcomes, s₂)) :
    (listEach opts (directory :: rest)).run s = (outcome :: outcomes, s₂) := by
  rw [listEach, List.mapM_cons, run_stateBind hfirst]
  rw [listEach] at hrest
  rw [run_stateBind hrest]
  rfl

/-- The visits that have been made are orderly, and so are they with the next one. -/
theorem Explored.orderly (h : Explored lsn root visits leads f) {made : List Visit}
    (hmade : made.map Visit.toLead <+: visits.map Visit.toLead ++ leads)
    (hvisits : visits ⊆ made) : Orderly root made where
  once := by
    have hlsns : (made.map fun v => v.lsn) = (made.map Visit.toLead).map Lead.lsn := by
      rw [List.map_map]
      rfl
    rw [hlsns]
    exact h.nodup.sublist (hmade.sublist.map _)
  levels := by
    have hdepths : (made.map fun v => v.depth) = (made.map Visit.toLead).map Lead.depth := by
      rw [List.map_map]
      rfl
    rw [hdepths]
    exact List.pairwise_map.mpr (h.levels.sublist hmade.sublist)
  reached v hv := by
    have hlead : v.toLead ∈ visits.map Visit.toLead ++ leads :=
      hmade.subset (List.mem_map_of_mem hv)
    refine (h.reached _ hlead).mono ?_
    rintro directory entries ⟨w, hw, hlisted⟩
    exact ⟨w, hvisits hw, hlisted⟩

/-- What holds between visits leads to an orderly search that ends in one of three ways. -/
theorem run_searchOwner (opts : ListOptions) (h : Explored lsn root visits leads f)
    (s : SectorSource δ) :
    ∃ later result s', (searchOwner opts lsn f).run.run s = (result, s') ∧
      (listEach opts (later.map fun v => v.directory)).run s = (later.map Visit.outcome, s') ∧
      Orderly root (visits ++ later) ∧ Ending lsn root (visits ++ later) result := by
  induction hremaining : f.remaining using Nat.strongRecOn generalizing f visits leads s with
  | ind n ih =>
    rw [searchOwner]
    have hleads := h.waiting_eq
    split
    · next hwaiting =>
      rw [hwaiting] at hleads
      obtain rfl : leads = [] := List.map_eq_nil_iff.mp hleads.symm
      have hstart := h.start
      have hseen := h.mem_seen
      rw [List.append_nil] at hstart hseen
      refine ⟨[], .error .notFound, s, run_throw _, rfl, ?_, ?_⟩
      · rw [List.append_nil]
        exact h.orderly (List.prefix_append _ _) (List.Subset.refl _)
      · rw [List.append_nil]
        refine .nowhere h.passed hstart fun v hv entries hlisted e he hdirectory => ?_
        have hmem := (hseen _).mp (h.closed v hv entries hlisted e he hdirectory)
        rwa [List.map_map] at hmem
    · next path directory waiting hwaiting =>
      rw [hwaiting] at hleads
      obtain ⟨first, rest, rfl, hfirst, hrest⟩ := List.map_eq_cons_iff.mp hleads.symm
      obtain ⟨rfl, rfl⟩ := Prod.mk.inj hfirst
      have horderly (outcome : Except Error (List Entry)) :
          Orderly root (visits ++ [Visit.mk first outcome]) :=
        h.orderly (by simp) (List.subset_append_left _ _)
      cases hlist : (list opts first.directory).run.run s with
      | mk outcome s₁ =>
        have hvisited : (listEach opts [first.directory]).run s = ([outcome], s₁) :=
          run_listEach_cons hlist rfl
        cases outcome with
        | error failure =>
          rw [run_bind_error hlist]
          refine ⟨[Visit.mk first (.error failure)], _, s₁, rfl, hvisited, horderly _, ?_⟩
          exact .failed h.passed (list_ne_notFound opts first.directory s failure s₁ hlist)
        | ok entries =>
          rw [run_bind_ok hlist]
          split
          · next found hvisit =>
            obtain ⟨before, e, after, rfl, rfl, he, hbefore⟩ := Frontier.visit_eq_inl hvisit
            refine ⟨[Visit.mk first (.ok (before ++ e :: after))], _, s₁, run_pure _, hvisited,
              horderly _, ?_⟩
            rw [← pathOf_concat]
            exact .found h.passed he hbefore
          -- A directory fewer is left to be listed.
          · next g hvisit =>
            obtain ⟨leads', hnext⟩ := h.visit (hrest ▸ hvisit)
            have hless := Frontier.remaining_visit_le hvisit
            simp only [Frontier.remaining, List.length_cons, hwaiting] at hless hremaining
            obtain ⟨later, result, s', hrun, heach, hdone, hends⟩ :=
              ih g.remaining (by simp only [Frontier.remaining]; omega) hnext s₁ rfl
            rw [List.append_assoc] at hdone hends
            exact ⟨Visit.mk first (.ok entries) :: later, result, s', hrun,
              run_listEach_cons hlist heach, hdone, hends⟩

/-- A source that serves an image lists directories as they are in the image, and goes on serving
it. -/
theorem run_listEach {image : Image} {framing : Framing} (opts : ListOptions)
    (directories : List Entry) {s : SectorSource δ} (hs : s.Serves image framing) :
    ∃ s', (listEach opts directories).run s =
      (directories.map (image.listing framing opts), s') ∧ s'.Serves image framing := by
  induction directories generalizing s with
  | nil => exact ⟨s, rfl, hs⟩
  | cons directory rest ih =>
    obtain ⟨s₁, hfirst, hs₁⟩ := yields_list opts directory s hs
    obtain ⟨s₂, hrest, hs₂⟩ := ih hs₁
    exact ⟨s₂, run_listEach_cons hfirst hrest, hs₂⟩

/-- What the visits come to on such a source is what there is to be listed in the image. -/
theorem outcome_eq_listing {image : Image} {framing : Framing} {s s' : SectorSource δ}
    (hs : s.Serves image framing)
    (heach : (listEach opts (visits.map fun v => v.directory)).run s =
      (visits.map Visit.outcome, s')) :
    s'.Serves image framing ∧ ∀ v ∈ visits, v.outcome = image.listing framing opts v.directory := by
  obtain ⟨s₁, hlistings, hs₁⟩ := run_listEach opts (visits.map fun v => v.directory) hs
  rw [heach, List.map_map] at hlistings
  obtain ⟨houtcomes, rfl⟩ := Prod.mk.inj hlistings
  exact ⟨hs₁, List.map_inj_left.mp houtcomes⟩

/-- The trail to what an orderly search found, each entry of which was listed in the one before. -/
theorem Ending.exists_trail {path : String} {e : Entry} (h : Ending lsn root visits (.ok (path, e)))
    (hdone : Orderly root visits) :
    ∃ trail, path = pathOf (trail ++ [e]) ∧ Leads (Listed visits) root (trail ++ [e]) e := by
  cases h with
  | @found passed l before after e =>
    have hlast : Visit.mk l (.ok (before ++ e :: after)) ∈
        passed ++ [Visit.mk l (.ok (before ++ e :: after))] := by simp
    exact ⟨l.trail, rfl, (hdone.reached _ hlast).step ⟨_, hlast, rfl, rfl⟩ (by simp)⟩

/-- The root directory comes first: if it has the sector itself, nothing is listed. -/
theorem ownerWithPath_eq (volume : Volume) (opts : ListOptions) (lsn : UInt32) :
    (ownerWithPath volume opts lsn : SourceM δ (String × Entry)) =
      if (volume.rootEntry opts).containsLsn lsn then pure ("/", volume.rootEntry opts)
      else searchOwner { opts with includeDots := false } lsn
        ⟨[(volume.rootEntry opts).lsn], [("", volume.rootEntry opts)]⟩ := rfl

/-- **The search is breadth first and ends on every volume.** It lists directories one after the
other, each with a trail of entries that leads to it from the root directory: no two that start at
one sector, and none before one that is further up. An entry that is found has the sector, its path
is that of the trail to it, and nothing that was looked at before it has the sector. If nothing is
found, the directories that were listed are closed: the root directory is one of them, and so is
every directory in them. A directory that cannot be listed is the end of the search. On a device
that can be read, the listings are those of the image. -/
theorem ownerWithPath_breadthFirst (volume : Volume) (opts : ListOptions) (lsn : UInt32)
    (s : SectorSource δ) :
    let shown := { opts with includeDots := false }
    let root := volume.rootEntry opts
    ∃ (visits : List Visit) (result : Except Error (String × Entry)) (s' : SectorSource δ),
      (ownerWithPath volume opts lsn).run.run s = (result, s') ∧
      (listEach shown (visits.map fun v => v.directory)).run s = (visits.map Visit.outcome, s') ∧
      (visits.map fun v => v.lsn).Nodup ∧
      (visits.map fun v => v.depth).Pairwise (· ≤ ·) ∧
      (∀ v ∈ visits, Leads (Listed visits) root v.trail v.directory) ∧
      (∀ path e, result = .ok (path, e) → e.containsLsn lsn = true ∧
        (path = "/" ∧ e = root ∧ visits = [] ∨
          ∃ passed l before after, visits = passed ++ [⟨l, .ok (before ++ e :: after)⟩] ∧
            path = pathOf (l.trail ++ [e]) ∧ Leads (Listed visits) root (l.trail ++ [e]) e ∧
            root.containsLsn lsn = false ∧ (∀ v ∈ passed, v.PassesOver lsn) ∧
            ∀ x ∈ before, x.containsLsn lsn = false)) ∧
      (result = .error .notFound →
        root.lsn ∈ (visits.map fun v => v.lsn) ∧ ∀ v ∈ visits, v.PassesOver lsn ∧
          ∀ entries, v.outcome = .ok entries → ∀ e ∈ entries,
            e.isDirectory = true → e.lsn ∈ visits.map fun v => v.lsn) ∧
      (∀ v ∈ visits, ∀ failure, v.outcome = .error failure → result = .error failure) ∧
      (∀ failure, result = .error failure →
        failure = .notFound ∨ ∃ v ∈ visits, v.outcome = .error failure) ∧
      ∀ image framing, s.Serves image framing →
        ∀ v ∈ visits, v.outcome = image.listing framing shown v.directory := by
  intro shown root
  rw [ownerWithPath_eq]
  split
  · next hroot =>
    refine ⟨[], _, s, run_pure _, rfl, .nil, .nil, fun v hv => (nomatch hv), fun path e h => ?_,
      fun h => (nomatch h), fun v hv => (nomatch hv), fun failure h => (nomatch h),
      fun _ _ _ v hv => (nomatch hv)⟩
    cases h
    exact ⟨hroot, .inl ⟨rfl, rfl, rfl⟩⟩
  next hroot =>
  have hpassed : root.containsLsn lsn = false := Bool.eq_false_iff.mpr hroot
  obtain ⟨visits, result, s', hrun, heach, hdone, hends⟩ :=
    run_searchOwner shown (explored_start lsn root) s
  rw [List.nil_append] at hdone hends
  have himage (image : Image) (framing : Framing) (hs : s.Serves image framing) :
      ∀ v ∈ visits, v.outcome = image.listing framing shown v.directory :=
    (outcome_eq_listing hs heach).2
  have hok {v : Visit} (hv : v.PassesOver lsn) {failure : Error} : v.outcome ≠ .error failure := by
    obtain ⟨entries, hlisted, -⟩ := hv
    rw [hlisted]
    exact nofun
  refine ⟨visits, result, s', hrun, heach, hdone.once, hdone.levels, hdone.reached, ?_⟩
  cases hends with
  | @found passed l before after e hbehind he hbefore =>
    refine ⟨fun path x h => ?_, fun h => (nomatch h), fun v hv failure hfailure => ?_,
      fun failure h => (nomatch h), himage⟩
    · cases h
      have hlast : Visit.mk l (.ok (before ++ e :: after)) ∈
          passed ++ [Visit.mk l (.ok (before ++ e :: after))] := by simp
      exact ⟨he, .inr ⟨passed, l, before, after, rfl, rfl,
        (hdone.reached _ hlast).step ⟨_, hlast, rfl, rfl⟩ (by simp), hpassed, hbehind, hbefore⟩⟩
    · rcases List.mem_append.mp hv with hv | hv
      · exact absurd hfailure (hok (hbehind v hv))
      · obtain rfl := List.mem_singleton.mp hv
        cases hfailure
  | @failed passed l failure hbehind hfailure =>
    refine ⟨fun path e h => (nomatch h), fun h => ?_, fun v hv cause hcause => ?_,
      fun cause hcause => ?_, himage⟩
    · cases h
      exact absurd rfl hfailure
    · rcases List.mem_append.mp hv with hv | hv
      · exact absurd hcause (hok (hbehind v hv))
      · obtain rfl := List.mem_singleton.mp hv
        cases hcause
        rfl
    · cases hcause
      exact .inr ⟨_, List.mem_append_right _ (List.mem_singleton_self _), rfl⟩
  | nowhere hbehind hstart hclosed =>
    refine ⟨fun path e h => (nomatch h), fun _ => ⟨?_, fun v hv => ⟨hbehind v hv, hclosed v hv⟩⟩,
      fun v hv failure hfailure => absurd hfailure (hok (hbehind v hv)), fun failure h => ?_, himage⟩
    · obtain ⟨v, hv, hlead⟩ := List.mem_map.mp hstart
      exact List.mem_map.mpr ⟨v, hv, by rw [hlead]; rfl⟩
    · cases h
      exact .inl rfl

end Run

end Ecma119.Tree
