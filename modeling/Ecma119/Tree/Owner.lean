import Ecma119.Tree.Lookup

/-!
# The owner of a sector

The tree is searched level by level for the first entry that has the sector. Records can point
anywhere, also back up the tree, so each directory is listed once, as told by the sector it starts
at. There are finitely many sectors, which is why the search ends on every volume.
-/

namespace Ecma119.Tree

structure Frontier where
  /-- The first sectors of all directories found. -/
  seen : List UInt32
  /-- The directories that are still to be listed, with their paths, in the order of the search. -/
  waiting : List (String × Entry)

/-- Looks at the entries of the directory at `path`: the first one that has the sector, with its path,
or else the search with the new directories among them added. -/
def Frontier.visit (lsn : UInt32) (path : String) :
    Frontier → List Entry → (String × Entry) ⊕ Frontier
  | f, [] => .inr f
  | f, e :: rest =>
    let entryPath := path ++ "/" ++ e.name
    if e.containsLsn lsn then .inl (entryPath, e)
    else if e.isDirectory && !f.seen.contains e.lsn then
      visit lsn path ⟨e.lsn :: f.seen, f.waiting ++ [(entryPath, e)]⟩ rest
    else visit lsn path f rest

/-! ## Why the search ends -/

/-- The number of sectors below `limit` at which no directory found so far starts. -/
def unseenBelow : (limit : Nat) → (seen : List UInt32) → Nat
  | 0, _ => 0
  | n + 1, seen => unseenBelow n seen + if seen.contains (UInt32.ofNat n) then 0 else 1

/-- Having seen one more sector leaves no more of them unseen. -/
theorem unseenBelow_cons_le (limit : Nat) (lsn : UInt32) (seen : List UInt32) :
    unseenBelow limit (lsn :: seen) ≤ unseenBelow limit seen := by
  induction limit with
  | zero => exact Nat.le_refl _
  | succ n ih => grind [unseenBelow]

/-- Finding a directory leaves one sector fewer to be seen, which is what the search terminates by. -/
theorem unseenBelow_cons_lt {limit : Nat} {lsn : UInt32} {seen : List UInt32}
    (hlimit : lsn.toNat < limit) (hnew : seen.contains lsn = false) :
    unseenBelow limit (lsn :: seen) < unseenBelow limit seen := by
  induction limit with
  | zero => omega
  | succ n ih =>
    have hle := unseenBelow_cons_le n lsn seen
    by_cases hn : lsn.toNat = n
    · have hof : UInt32.ofNat n = lsn := by rw [← hn, UInt32.ofNat_toNat]
      grind [unseenBelow]
    · have hlt := ih (by omega)
      grind [unseenBelow]

/-- What becomes smaller with every directory that is listed: listing one takes it off those that wait,
and each directory that comes to wait is at a sector not seen before. -/
def Frontier.remaining (f : Frontier) : Nat :=
  2 * unseenBelow UInt32.size f.seen + f.waiting.length

/-- A visit never leaves more to be done, which is why the search comes to an end. -/
theorem Frontier.remaining_visit_le {lsn : UInt32} {path : String} {f g : Frontier}
    {entries : List Entry} (h : f.visit lsn path entries = .inr g) :
    g.remaining ≤ f.remaining := by
  induction entries generalizing f with
  | nil =>
    obtain rfl : f = g := by simpa [visit] using h
    exact Nat.le_refl _
  | cons e rest ih =>
    simp only [visit] at h
    split at h
    · simp at h
    · split at h
      · next hnew =>
        refine Nat.le_trans (ih h) ?_
        have hunseen : f.seen.contains e.lsn = false := by
          simp only [Bool.and_eq_true, Bool.not_eq_true'] at hnew
          exact hnew.2
        have hlt := unseenBelow_cons_lt e.lsn.toNat_lt_size hunseen
        simp only [remaining, List.length_append, List.length_cons, List.length_nil]
        omega
      · exact ih h

/-! ## The search -/

variable {δ : Type} [BlockDevice δ]

/-- Lists the waiting directories until one has an entry that has the sector. -/
def searchOwner (opts : ListOptions) (lsn : UInt32) (f : Frontier) :
    SourceM δ (String × Entry) :=
  match _hwaiting : f.waiting with
  | [] => throw .notFound
  | (path, directory) :: waiting => do
    let entries ← list opts directory
    match _hvisit : ({ f with waiting } : Frontier).visit lsn path entries with
    | .inl found => return found
    | .inr next => searchOwner opts lsn next
termination_by f.remaining
decreasing_by
  have hle := Frontier.remaining_visit_le _hvisit
  simp only [Frontier.remaining, _hwaiting, List.length_cons] at hle ⊢
  omega

/-- The entry that has a sector, with its path. The root directory comes first; the entries of a
directory itself and of its parent are not looked at. -/
def ownerWithPath (volume : Volume) (opts : ListOptions) (lsn : UInt32) :
    SourceM δ (String × Entry) :=
  let root := volume.rootEntry opts
  if root.containsLsn lsn then return ("/", root)
  else searchOwner { opts with includeDots := false } lsn ⟨[root.lsn], [("", root)]⟩

def owner (volume : Volume) (opts : ListOptions) (lsn : UInt32) : SourceM δ Entry := do
  return (← ownerWithPath volume opts lsn).2

end Ecma119.Tree
