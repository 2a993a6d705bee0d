import Ecma119.PathTable
import Mathlib.Data.List.Induction
import Mathlib.Logic.Function.Iterate

/-!
# Path tables that are built

A path table is built by adding one directory after the other, and some of the additions may be
refused. `InOrder` says what such a table is like: a tree, with its entries in the order of their
parents. Whether one more entry keeps it so is exactly what is checked before the entry is added
(`inOrder_push`). So the tables that can be built are those in order, and `built_iff_inOrder` says
so together with what an addition does to them.
-/

namespace Ecma119.PathTable

/-! ## Tables in order -/

/-- The entry with a number. Entries are counted from 1 on, and there is none with the number 0. -/
def entryAt? (t : PathTable) : (number : Nat) → Option PathTableEntry
  | 0 => none
  | index + 1 => t.toList[index]?

def parentOf (t : PathTable) (number : Nat) : Nat :=
  ((t.entryAt? number).map fun e => e.parent.toNat).getD number

/-- The entries make a tree: the first one is its own parent, and every other one has a parent that
comes before it. They are sorted by their parents, and none has an extended attribute record. -/
structure InOrder (t : PathTable) : Prop where
  length_le : t.length ≤ 65535
  root : ∀ e, t.entryAt? 1 = some e → e.parent = 1
  earlier : ∀ number e, 1 < number → t.entryAt? number = some e →
    1 ≤ e.parent.toNat ∧ e.parent.toNat < number
  sorted : (t.toList.map PathTableEntry.parent).Pairwise (· ≤ ·)
  named : ∀ e ∈ t.toList, 1 ≤ e.name.length ∧ e.name.length ≤ 255
  plain : ∀ e ∈ t.toList, e.extAttrLength = 0

variable {t : PathTable} {e : PathTableEntry} {name : Bytes} {extent : UInt32} {parent : UInt16}

theorem inOrder_empty : empty.InOrder where
  length_le := Nat.zero_le _
  root _ he := nomatch he
  earlier
    | _ + 1, _, _, he => nomatch he
  sorted := .nil
  named _ he := nomatch he
  plain _ he := nomatch he

/-- Whatever has a number is in the table: numbers go from 1 to the length without a gap. -/
theorem exists_entryAt? {number : Nat} (hpos : 1 ≤ number) (hle : number ≤ t.length) :
    ∃ e, t.entryAt? number = some e := by
  obtain ⟨index, rfl⟩ := Nat.exists_eq_add_of_le' hpos
  exact ⟨_, List.getElem?_eq_getElem (by rwa [toList, Array.length_toList])⟩

/-- Only the entries that there are can be looked up by their numbers, which start at 1. -/
theorem le_length_of_entryAt? {number : Nat} (h : t.entryAt? number = some e) :
    number ≤ t.length := by
  cases number with
  | zero => cases h
  | succ index =>
    obtain ⟨hindex, -⟩ := List.getElem?_eq_some_iff.mp h
    rwa [toList, Array.length_toList] at hindex

/-- Parents lead up to the root, as each has a smaller number than the entry it is the parent of. -/
theorem InOrder.reaches_root (h : t.InOrder) {number : Nat} (hpos : 1 ≤ number)
    (hle : number ≤ t.length) : ∃ steps, t.parentOf^[steps] number = 1 := by
  induction number using Nat.strongRecOn with
  | ind number ih =>
    by_cases hroot : number = 1
    · exact ⟨0, hroot⟩
    · obtain ⟨e, he⟩ := exists_entryAt? hpos hle
      obtain ⟨hparent, hless⟩ := h.earlier number e (by omega) he
      have hstep : t.parentOf number = e.parent.toNat := by
        rw [parentOf, he]
        rfl
      obtain ⟨steps, hsteps⟩ := ih e.parent.toNat hless hparent (by omega)
      exact ⟨steps + 1, by rw [Function.iterate_succ_apply, hstep, hsteps]⟩

/-! ## One more entry -/

/-- The table with one more entry at its end, whether that is in order there or not. -/
def push (t : PathTable) (e : PathTableEntry) : PathTable := ⟨t.entries.push e⟩

@[simp] theorem toList_push (t : PathTable) (e : PathTableEntry) :
    (t.push e).toList = t.toList ++ [e] := Array.toList_push

@[simp] theorem length_push (t : PathTable) (e : PathTableEntry) :
    (t.push e).length = t.length + 1 := Array.size_push e

theorem length_toList (t : PathTable) : t.toList.length = t.length := Array.length_toList

/-- The new entry has the next number, and every other number stands for what it stood for. -/
theorem entryAt?_push (t : PathTable) (e : PathTableEntry) (number : Nat) :
    (t.push e).entryAt? number = if number = t.length + 1 then some e else t.entryAt? number := by
  cases number with
  | zero => rw [if_neg (by omega)]; rfl
  | succ index =>
    rw [entryAt?, entryAt?, toList_push, List.getElem?_append, length_toList]
    split
    · rw [if_neg (by omega)]
    · next hle =>
      by_cases hlast : index = t.length
      · rw [if_pos (by omega), hlast, Nat.sub_self]
        rfl
      · rw [if_neg (by omega), List.getElem?_eq_none (by simp; omega),
          List.getElem?_eq_none (by rw [length_toList]; omega)]

/-- Every entry keeps its number, so that parents that were given stay right. -/
theorem entryAt?_push_of_some {number : Nat} {x : PathTableEntry}
    (h : t.entryAt? number = some x) : (t.push e).entryAt? number = some x := by
  have hle := le_length_of_entryAt? h
  rw [entryAt?_push, if_neg (by omega), h]

/-- Something holds of all entries of a longer table if it does of those before and of the one that was
added. -/
theorem forall_mem_push {P : PathTableEntry → Prop} :
    (∀ x ∈ (t.push e).toList, P x) ↔ (∀ x ∈ t.toList, P x) ∧ P e := by
  rw [toList_push, List.forall_mem_append, List.forall_mem_singleton]

/-- The parents stay in order exactly if the one of the new entry is not below any other. -/
theorem sorted_push_iff :
    ((t.push e).toList.map PathTableEntry.parent).Pairwise (· ≤ ·) ↔
      (t.toList.map PathTableEntry.parent).Pairwise (· ≤ ·) ∧
        ∀ x ∈ t.toList, x.parent ≤ e.parent := by
  rw [toList_push, List.map_append, List.map_singleton, List.pairwise_append]
  simp

/-- What the builder checks of a parent: it is the number of an entry, or 1 for the root, and not below
that of the last entry. -/
theorem mayFollow_iff :
    t.mayFollow parent = true ↔ 1 ≤ parent.toNat ∧ parent.toNat ≤ max t.length 1 ∧
      ∀ last ∈ t.toList.getLast?, last.parent ≤ parent := by
  have hzero : parent ≠ 0 ↔ 1 ≤ parent.toNat := by
    rw [← UInt16.toNat_inj.ne]
    exact Nat.pos_iff_ne_zero.symm
  have hlast : t.toList.getLast? = t.entries.back? := Array.getLast?_toList _
  rw [mayFollow, hlast, ← hzero]
  cases t.entries.back? <;> simp [and_assoc]

/-- Nothing keeps an entry from being added if its name and its parent are fit and there is room. -/
theorem refusal?_eq_none_iff :
    t.refusal? name parent = none ↔ (1 ≤ name.length ∧ name.length ≤ 255) ∧
      t.mayFollow parent = true ∧ t.length < 65535 := by
  have hname : name = [] ↔ ¬ 1 ≤ name.length := by
    rw [Nat.not_le, Nat.lt_one_iff, List.length_eq_zero_iff]
  rw [refusal?]
  split
  · next hempty => exact iff_of_false nofun fun h => hname.mp hempty h.1.1
  next hne =>
  have hpos : 1 ≤ name.length := Decidable.not_not.mp (mt hname.mpr hne)
  split
  · exact iff_of_false nofun fun h => by omega
  next hshort =>
  split
  · next hrefused => exact iff_of_false nofun fun h => by simp [h.2.1] at hrefused
  next hfollows =>
  split
  · exact iff_of_false nofun fun h => by omega
  · exact iff_of_true rfl ⟨⟨hpos, by omega⟩, by simpa using hfollows, by omega⟩

/-- In a table in order no entry has a later parent than the last one, so that only that is to be
compared. -/
theorem InOrder.parent_le_last (h : t.InOrder) {last : PathTableEntry}
    (hlast : t.toList.getLast? = some last) : ∀ x ∈ t.toList, x.parent ≤ last.parent := by
  obtain ⟨before, hbefore⟩ := List.getLast?_eq_some_iff.mp hlast
  have hsorted := h.sorted
  rw [hbefore, List.map_append] at hsorted
  obtain ⟨-, -, hle⟩ := List.pairwise_append.mp hsorted
  intro x hx
  rw [hbefore] at hx
  rcases List.mem_append.mp hx with hx | hx
  · exact hle _ (List.mem_map_of_mem hx) _ (List.mem_singleton_self _)
  · rw [List.mem_singleton.mp hx]
    exact UInt16.le_refl _

/-- Without its last entry a table in order is in order, which is what an induction from the end needs.
-/
theorem InOrder.of_push (h : (t.push e).InOrder) : t.InOrder where
  length_le := by
    have hlength := h.length_le
    rw [length_push] at hlength
    omega
  root x hx := h.root x (entryAt?_push_of_some hx)
  earlier number x hnumber hx := h.earlier number x hnumber (entryAt?_push_of_some hx)
  sorted := (sorted_push_iff.mp h.sorted).1
  named := (forall_mem_push.mp h.named).1
  plain := (forall_mem_push.mp h.plain).1

/-- The last entry of a table in order is one that nothing keeps from being added. -/
theorem InOrder.refusal?_last (h : (t.push e).InOrder) :
    t.refusal? e.name e.parent = none := by
  have hlength := h.length_le
  rw [length_push] at hlength
  have hnew : (t.push e).entryAt? (t.length + 1) = some e := by rw [entryAt?_push, if_pos rfl]
  have hparent : 1 ≤ e.parent.toNat ∧ e.parent.toNat ≤ max t.length 1 := by
    by_cases hfirst : t.length = 0
    · rw [hfirst] at hnew
      rw [h.root e hnew]
      exact ⟨Nat.le_refl _, Nat.le_max_right _ _⟩
    · obtain ⟨hpos, hless⟩ := h.earlier _ e (by omega) hnew
      exact ⟨hpos, by omega⟩
  have hsorted : ∀ last ∈ t.toList.getLast?, last.parent ≤ e.parent := fun last hlast =>
    (sorted_push_iff.mp h.sorted).2 last (List.mem_of_getLast? hlast)
  exact refusal?_eq_none_iff.mpr ⟨(forall_mem_push.mp h.named).2,
    mayFollow_iff.mpr ⟨hparent.1, hparent.2, hsorted⟩, by omega⟩

/-- A table in order stays so when an entry is put at the end that nothing keeps from being
added. -/
theorem InOrder.push (h : t.InOrder) (hnone : t.refusal? e.name e.parent = none)
    (hplain : e.extAttrLength = 0) : (t.push e).InOrder := by
  obtain ⟨hname, hfollows, hroom⟩ := refusal?_eq_none_iff.mp hnone
  obtain ⟨hpos, hparent, hsorted⟩ := mayFollow_iff.mp hfollows
  constructor
  case length_le =>
    rw [length_push]
    omega
  case root =>
    intro x hx
    rw [entryAt?_push] at hx
    split at hx
    · next hfirst =>
      cases hx
      have hone : e.parent.toNat = (1 : UInt16).toNat := by
        show e.parent.toNat = 1
        omega
      exact UInt16.toNat_inj.mp hone
    · exact h.root x hx
  case earlier =>
    intro number x hnumber hx
    rw [entryAt?_push] at hx
    split at hx
    · cases hx
      omega
    · exact h.earlier number x hnumber hx
  case sorted =>
    refine sorted_push_iff.mpr ⟨h.sorted, fun x hx => ?_⟩
    obtain ⟨last, hlast⟩ :=
      Option.isSome_iff_exists.mp (List.getLast?_isSome.mpr (List.ne_nil_of_mem hx))
    exact UInt16.le_trans (h.parent_le_last hlast x hx) (hsorted last hlast)
  case named => exact forall_mem_push.mpr ⟨h.named, hname⟩
  case plain => exact forall_mem_push.mpr ⟨h.plain, hplain⟩

/-- One more entry keeps a table in order exactly if nothing keeps it from being added. -/
theorem inOrder_push :
    (t.push e).InOrder ↔ t.InOrder ∧ t.refusal? e.name e.parent = none ∧ e.extAttrLength = 0 :=
  ⟨fun h => ⟨h.of_push, h.refusal?_last, (forall_mem_push.mp h.plain).2⟩,
    fun ⟨h, hnone, hplain⟩ => h.push hnone hplain⟩

/-! ## Additions -/

structure Addition where
  name : Bytes
  extent : UInt32
  parent : UInt16

def Addition.entry (a : Addition) : PathTableEntry :=
  { name := a.name, extAttrLength := 0, extent := a.extent, parent := a.parent }

/-- The table after additions, whether they are refused or not. One that is refused leaves it as it is.
-/
def afterAll (t : PathTable) (additions : List Addition) : PathTable :=
  additions.foldl (fun t a => (t.add a.name a.extent a.parent).2) t

/-- Additions are made one after the other, so that the last one is made to what all others have left. -/
theorem afterAll_concat (t : PathTable) (additions : List Addition) (a : Addition) :
    t.afterAll (additions ++ [a]) =
      ((t.afterAll additions).add a.name a.extent a.parent).2 :=
  List.foldl_append

/-- An addition is refused, or the entry is put at the end and its number is given. -/
theorem add_cases (t : PathTable) (a : Addition) :
    (∃ cause, t.refusal? a.name a.parent = some cause ∧
      t.add a.name a.extent a.parent = (.error cause, t)) ∨
    t.refusal? a.name a.parent = none ∧
      t.add a.name a.extent a.parent = (.ok (UInt16.ofNat (t.length + 1)), t.push a.entry) := by
  rw [add]
  cases t.refusal? a.name a.parent with
  | some cause => exact .inl ⟨cause, rfl, rfl⟩
  | none => exact .inr ⟨rfl, rfl⟩

/-- What an addition makes of a table in order is in order again, whether it adds an entry or is refused.
-/
theorem InOrder.add (h : t.InOrder) (a : Addition) :
    (t.add a.name a.extent a.parent).2.InOrder := by
  rcases add_cases t a with ⟨cause, -, hadd⟩ | ⟨hnone, hadd⟩
  · rwa [hadd]
  · rw [hadd]
    exact inOrder_push.mpr ⟨h, hnone, rfl⟩

/-- A table that is in order stays so through any additions, whether they succeed or fail. -/
theorem InOrder.afterAll (h : t.InOrder) (additions : List Addition) :
    (t.afterAll additions).InOrder := by
  induction additions generalizing t with
  | nil => exact h
  | cons a rest ih => exact ih (h.add a)

/-- A table in order is built by adding its entries one after the other. The induction is on them, from
the end. -/
theorem InOrder.exists_additions (h : t.InOrder) :
    ∃ additions, empty.afterAll additions = t := by
  obtain ⟨⟨entries⟩⟩ := t
  induction entries using List.reverseRecOn with
  | nil => exact ⟨[], rfl⟩
  | append_singleton entries e ih =>
    have hpush : (⟨⟨entries ++ [e]⟩⟩ : PathTable) = PathTable.push ⟨⟨entries⟩⟩ e := by
      simp [PathTable.push]
    rw [hpush] at h ⊢
    obtain ⟨hbefore, hnone, hplain⟩ := inOrder_push.mp h
    obtain ⟨additions, hadditions⟩ := ih hbefore
    let a : Addition := ⟨e.name, e.extent, e.parent⟩
    have hentry : a.entry = e := by
      rw [Addition.entry, ← hplain]
    refine ⟨additions ++ [a], ?_⟩
    rw [afterAll_concat, hadditions]
    rcases add_cases ⟨⟨entries⟩⟩ a with ⟨cause, hrefused, -⟩ | ⟨-, hadd⟩
    · cases hnone.symm.trans hrefused
    · rw [hadd, hentry]

/-- **The path tables that are built are trees in the order of their parents.** They are all there
are: every such table is built by some additions. From every entry the parents lead up to the first
one. An addition is refused and leaves the table as it is, or puts the entry at the end and gives
its number. -/
theorem built_iff_inOrder :
    (∀ t, (∃ additions, empty.afterAll additions = t) ↔ t.InOrder) ∧
    ∀ additions, let t := empty.afterAll additions
      (∀ number, 1 ≤ number → number ≤ t.length → ∃ steps, t.parentOf^[steps] number = 1) ∧
      ∀ name extent parent,
        (∀ number, (t.add name extent parent).1 = .ok number →
          number.toNat = (t.add name extent parent).2.length ∧
          (t.add name extent parent).2.toList = t.toList ++ [⟨name, 0, extent, parent⟩]) ∧
        ∀ cause, (t.add name extent parent).1 = .error cause → (t.add name extent parent).2 = t := by
  have hbuilt (additions : List Addition) : (empty.afterAll additions).InOrder :=
    inOrder_empty.afterAll additions
  refine ⟨fun t => ⟨?_, InOrder.exists_additions⟩, fun additions => ?_⟩
  · rintro ⟨additions, rfl⟩
    exact hbuilt additions
  intro t
  refine ⟨fun number => (hbuilt additions).reaches_root, fun name extent parent => ?_⟩
  rcases add_cases t ⟨name, extent, parent⟩ with ⟨cause, -, hadd⟩ | ⟨hnone, hadd⟩
  · rw [hadd]
    exact ⟨nofun, fun _ _ => rfl⟩
  · rw [hadd]
    refine ⟨fun number hnumber => ?_, nofun⟩
    cases hnumber
    have hroom : t.length < 65535 := (refusal?_eq_none_iff.mp hnone).2.2
    refine ⟨?_, toList_push t _⟩
    rw [length_push]
    exact UInt16.toNat_ofNat_of_lt (Nat.succ_lt_succ hroom)

end Ecma119.PathTable
