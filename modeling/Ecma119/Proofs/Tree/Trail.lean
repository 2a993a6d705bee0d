import Ecma119.Tree.Lookup

/-!
# Trails

A trail is the entries that one comes by on the way down from a directory. `Leads` says that each
was found where the one before it was listed, and `pathOf` is the path that their names make. The
components of that path are the names again, if none of them is empty or has a slash.
-/

namespace Ecma119

/-- A path is cut as the library cuts a list, so that what is known of that can be used. -/
theorem splitAtEach_eq_splitOn {α : Type} [DecidableEq α] (x : α) (l : List α) :
    splitAtEach x l = l.splitOn x := by
  induction l with
  | nil => rfl
  | cons y rest ih =>
    rw [splitAtEach, List.splitOn_cons_eq_if_modifyHead, ← ih]
    by_cases hy : y = x
    · rw [if_pos hy, if_pos (by simp [hy])]
    · rw [if_neg hy, if_neg (by simp [hy])]
      cases hrest : splitAtEach x rest with
      | nil => exact absurd (ih.symm.trans hrest) (List.splitOn_ne_nil x rest)
      | cons part parts => rfl

/-- Parts behind the first stand each behind a separator, which is how a path is put together. -/
theorem intercalate_cons {α : Type} (x : α) (first : List α) (parts : List (List α)) :
    [x].intercalate (first :: parts) = first ++ parts.flatMap (x :: ·) := by
  induction parts generalizing first with
  | nil => simp [List.intercalate]
  | cons part parts ih =>
    rw [List.flatMap_cons, List.cons_append, ← ih part]
    simp [List.intercalate]

namespace Tree

/-! ## Paths of trails -/

def pathOf (trail : List Entry) : String := String.join (trail.map fun e => "/" ++ e.name)

/-- The path of a trail and one more entry is that of the trail, a slash and the name of the entry. -/
theorem pathOf_concat (trail : List Entry) (e : Entry) :
    pathOf (trail ++ [e]) = pathOf trail ++ "/" ++ e.name := by
  simp [pathOf, String.join, String.append_assoc]

/-- A path is the names along the trail, each with a slash before it. -/
theorem toList_pathOf (trail : List Entry) :
    (pathOf trail).toList = ['/'].intercalate ([] :: trail.map fun e => e.name.toList) := by
  rw [intercalate_cons, pathOf, String.toList_join, List.flatMap_map, List.flatMap_map,
    List.nil_append]
  exact congrArg trail.flatMap (funext fun e => String.toList_append)

/-- The components of a trail's path are the names of its entries, if these are fit for a path. -/
theorem pathComponents_pathOf {trail : List Entry}
    (h : ∀ e ∈ trail, e.name ≠ "" ∧ '/' ∉ e.name.toList) :
    pathComponents (pathOf trail) = trail.map Entry.name := by
  have hparts : splitAtEach '/' (pathOf trail).toList =
      [] :: trail.map fun e => e.name.toList := by
    rw [splitAtEach_eq_splitOn, toList_pathOf]
    refine List.splitOn_intercalate '/' ?_ (by simp)
    simpa using fun e he => (h e he).2
  have hnonempty : (trail.map fun e => e.name.toList).filter (fun part => !part.isEmpty) =
      trail.map fun e => e.name.toList := by
    rw [List.filter_eq_self]
    simpa using fun e he => (h e he).1
  rw [pathComponents, hparts, List.filter_cons_of_neg (by simp), hnonempty, List.map_map]
  exact List.map_congr_left fun e _ => String.ofList_toList

/-! ## Trails through listings -/

/-- The entries lead from `start` to the last of them: each is found in the listing of the one
before it, where `listed` tells what was found in a directory. -/
inductive Leads (listed : Entry → List Entry → Prop) (start : Entry) :
    List Entry → Entry → Prop
  | start : Leads listed start [] start
  | step {trail entries : List Entry} {directory e : Entry} (h : Leads listed start trail directory)
      (hlisted : listed directory entries) (he : e ∈ entries) :
      Leads listed start (trail ++ [e]) e

/-- A trail does not get lost where more directories have been listed, as its own were before. -/
theorem Leads.mono {listed listed' : Entry → List Entry → Prop} {start e : Entry}
    {trail : List Entry} (h : Leads listed start trail e)
    (himp : ∀ directory entries, listed directory entries → listed' directory entries) :
    Leads listed' start trail e := by
  induction h with
  | start => exact .start
  | step _ hlisted he ih => exact ih.step (himp _ _ hlisted) he

end Tree

end Ecma119
