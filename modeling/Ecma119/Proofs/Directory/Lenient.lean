import Ecma119.Directory.Entry
import Ecma119.Proofs.Directory.Halves
import Ecma119.Proofs.Directory.Packed

/-!
# Lenient listings

A directory that is listed strictly is listed as well, and no differently, if halves need not agree:
all of its records have been read, and of these each is read again.
-/

namespace Ecma119

def ListOptions.under (opts : ListOptions) (policy : EndianPolicy) : ListOptions :=
  { opts with policy }

namespace Cursor

/-- A record that is read strictly is read leniently, at the same place and with the same fields. -/
theorem next_lenient {c c' : Cursor} {place : Nat × DirectoryRecord}
    (h : c.next .strict = (some (.ok place), c')) : c.next .lenient = (some (.ok place), c') := by
  unfold next at h ⊢
  dsimp only at h ⊢
  split at h
  · cases h
  · next length tail hrest =>
    unfold readRecord at h ⊢
    dsimp only at h ⊢
    split at h
    · cases h
    · next hfits =>
      rw [if_neg hfits]
      split at h
      · next record hstrict =>
        rw [DirectoryRecord.reconciles_parse.ok_of_strict hstrict]
        exact h
      · cases h

/-- So are all records of a walk that meets no fault. The induction follows the walk. -/
theorem items_lenient {c : Cursor} (h : ∀ item ∈ c.items .strict, ∃ place, item = .ok place) :
    c.items .lenient = c.items .strict := by
  fun_induction items .strict c with
  | case1 c c' hnext =>
    apply items_eq_nil
    rw [next] at hnext ⊢
    dsimp only at hnext ⊢
    split at hnext
    · rfl
    · cases hnext
  | case2 c item c' hnext ih =>
    obtain ⟨place, rfl⟩ := h item List.mem_cons_self
    rw [items_eq_cons (next_lenient hnext)]
    rw [ih fun later hlater => h later (List.mem_cons_of_mem _ hlater)]

end Cursor

section Listing

variable {opts : ListOptions} {chain : Option Entry} {items : List WalkItem} {entries : List Entry}

/-- Where records have been read, how strictly does not matter any more: entries are made of them alike.
-/
theorem assemble_under (opts : ListOptions) (policy : EndianPolicy) (chain : Option Entry)
    (items : List WalkItem) :
    assemble (opts.under policy) chain items = assemble opts chain items := by
  induction items generalizing chain with
  | nil => cases chain <;> rfl
  | cons item rest ih =>
    cases item with
    | error cause => cases chain <;> rfl
    | ok place =>
      obtain ⟨offset, r⟩ := place
      have hentry : Entry.ofRecord (opts.under policy) r = Entry.ofRecord opts r := rfl
      have hdots : (opts.under policy).includeDots = opts.includeDots := rfl
      simp only [assemble, hentry, hdots, ih]

/-- A listing has no faults: if entries come of a walk, each of its items is a record. -/
theorem ok_of_assemble (h : assemble opts chain items = .ok entries) :
    ∀ item ∈ items, ∃ place, item = .ok place := by
  fun_induction assemble opts chain items generalizing entries with
  | case1 => exact fun _ hitem => (nomatch hitem)
  | case2 => cases h
  | case3 => cases h
  | case4 => cases h
  | case5 chain offset r rest _ _ ih => exact List.forall_mem_cons.mpr ⟨⟨_, rfl⟩, ih h⟩
  | case6 chain offset r rest _ _ ihOpen ihEnded =>
    refine List.forall_mem_cons.mpr ⟨⟨_, rfl⟩, ?_⟩
    obtain ⟨entry, -, h⟩ := except_bind_eq_ok h
    split at h
    · exact ihOpen entry h
    · obtain ⟨later, hlater, -⟩ := except_bind_eq_ok h
      exact ihEnded hlater

/-- What is listed strictly is listed leniently, entry for entry: a strict reader only refuses more. -/
theorem parseDirectory_lenient {extent : Bytes}
    (h : parseDirectory (opts.under .strict) extent = .ok entries) :
    parseDirectory (opts.under .lenient) extent = .ok entries := by
  have hitems : recordsOf .lenient extent = recordsOf .strict extent :=
    Cursor.items_lenient (ok_of_assemble h)
  have hlenient : parseDirectory (opts.under .lenient) extent =
      assemble (opts.under .lenient) none (recordsOf .lenient extent) := rfl
  have hstrict : parseDirectory (opts.under .strict) extent =
      assemble (opts.under .strict) none (recordsOf .strict extent) := rfl
  rw [hlenient, hitems, assemble_under, ← assemble_under opts .strict, ← hstrict]
  exact h

end Listing

end Ecma119
