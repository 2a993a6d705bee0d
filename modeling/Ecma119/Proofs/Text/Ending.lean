import Ecma119.Text.Charset
import Mathlib.Data.List.DropRight

/-!
# What is cut off the ends of lists

Elements at the end that are dropped make no difference, and where the last one is kept nothing is
dropped. A list is cut at its last separator exactly where no separator comes behind.
-/

namespace Ecma119

variable {α : Type} {p : α → Bool} {l : List α}

/-- Where the last element is kept, all are. -/
theorem dropTrailing_eq_self (h : ∀ x ∈ l.getLast?, p x = false) : dropTrailing p l = l := by
  refine List.rdropWhile_eq_self_iff.mpr fun hne => ?_
  rw [h _ (List.getLast_mem_getLast? hne)]
  exact Bool.false_ne_true

/-- Elements behind the end that are to be dropped make no difference to what is left. -/
theorem dropTrailing_append {back : List α} (h : ∀ x ∈ back, p x = true) (l : List α) :
    dropTrailing p (l ++ back) = dropTrailing p l := by
  rw [dropTrailing, dropTrailing, List.reverse_append, List.dropWhile_append_of_pos]
  simpa using h

/-- What is dropped is the end of the list and satisfies the predicate, element for element. -/
theorem exists_dropped (p : α → Bool) (l : List α) :
    ∃ back, l = dropTrailing p l ++ back ∧ ∀ x ∈ back, p x = true :=
  ⟨l.rtakeWhile p, List.rdropWhile_append_rtakeWhile.symm, fun _ => List.mem_rtakeWhile_imp⟩

/-- What is left does not end with an element that would be dropped, so that dropping twice changes
nothing. -/
theorem getLast?_dropTrailing (p : α → Bool) (l : List α) :
    ∀ x ∈ (dropTrailing p l).getLast?, p x = false := by
  intro x hx
  have hne : dropTrailing p l ≠ [] := by
    intro hnil
    rw [hnil] at hx
    cases hx
  rw [List.getLast?_eq_some_getLast hne, Option.mem_some_iff] at hx
  rw [← hx]
  exact Bool.eq_false_iff.mpr (List.rdropWhile_last_not p l hne)

variable [DecidableEq α] {x : α}

theorem cutLast?_eq_none (h : x ∉ l) : cutLast? x l = none := by
  induction l with
  | nil => rfl
  | cons y rest ih =>
    obtain ⟨hne, hrest⟩ : x ≠ y ∧ x ∉ rest := by simpa [not_or] using h
    rw [cutLast?, ih hrest]
    exact if_neg (Ne.symm hne)

/-- A list is cut at a separator behind which there is no other, into what is before it and behind it. -/
theorem cutLast?_append_cons (before : List α) {after : List α} (h : x ∉ after) :
    cutLast? x (before ++ x :: after) = some (before, after) := by
  induction before with
  | nil =>
    rw [List.nil_append, cutLast?, cutLast?_eq_none h]
    exact if_pos rfl
  | cons y before ih => rw [List.cons_append, cutLast?, ih]

/-- There is no cut only where there is no separator. -/
theorem cutLast?_eq_none_iff : cutLast? x l = none ↔ x ∉ l := by
  refine ⟨fun h hmem => ?_, cutLast?_eq_none⟩
  -- the last separator is the first one from behind
  obtain ⟨after, before, hl, hafter⟩ := List.eq_append_cons_of_mem (List.mem_reverse.mpr hmem)
  have hcut : l = before.reverse ++ x :: after.reverse := by
    simpa using congrArg List.reverse hl
  rw [hcut, cutLast?_append_cons _ (by simpa using hafter)] at h
  simp at h

end Ecma119
