import Ecma119.Directory.Entry
import Ecma119.Proofs.Run

/-!
# The directory's own records

Whether the records of the directory itself and of its parent are listed makes no difference to the
other entries, as long as none of these two is flagged as continued.
-/

namespace Ecma119

variable {opts : ListOptions}

/-- No record of the directory itself or of its parent is flagged as continued. -/
def DotsEnd (items : List WalkItem) : Prop :=
  ∀ offset r, .ok (offset, r) ∈ items → r.isDot = true → r.flags.isMultiExtent = false

instance (items : List WalkItem) : Decidable (DotsEnd items) :=
  decidable_of_iff (∀ item ∈ items, ∀ x ∈ item.toOption,
      x.2.isDot = true → x.2.flags.isMultiExtent = false) <| by
    constructor
    · intro h offset r hr
      exact h _ hr (offset, r) rfl
    · rintro h (cause | ⟨offset, r⟩) hitem x hx
      · cases hx
      · cases hx
        exact h offset r hitem

/-- What is listed without these records is listed with them too, in the same order. -/
theorem exists_assemble_of_hidden {chain : Option Entry} {items : List WalkItem}
    {entries : List Entry} (hdots : DotsEnd items)
    (h : assemble { opts with includeDots := false } chain items = .ok entries) :
    ∃ all, assemble opts chain items = .ok all ∧ entries.Sublist all := by
  generalize hopts : { opts with includeDots := false } = shown at h
  fun_induction assemble shown chain items generalizing entries with
  | case1 =>
    cases h
    exact ⟨[], by rw [assemble], .slnil⟩
  | case2 => cases h
  | case3 => cases h
  | case4 => cases h
  -- A record that is left out: no chain is open here, and it opens none where it is listed.
  | case5 chain offset r rest hgoes hhidden ih =>
    subst hopts
    obtain ⟨hdot, -⟩ : r.isDot = true ∧ _ := Bool.and_eq_true_iff.mp hhidden
    obtain ⟨all, hall, hsub⟩ := ih (fun offset s hs => hdots offset s (List.mem_cons_of_mem _ hs)) h
    rw [assemble, if_neg hgoes]
    split
    · exact ⟨all, hall, hsub⟩
    · have hnone : chain = none := by
        rw [hdot, Bool.true_and] at hgoes
        exact Option.isNone_iff_eq_none.mp (by simpa using hgoes)
      subst hnone
      have hended := hdots offset r List.mem_cons_self hdot
      refine ⟨.ofRecord opts r :: all, ?_, hsub.cons _⟩
      show (if r.flags.isMultiExtent then assemble opts (some (.ofRecord opts r)) rest
        else do return .ofRecord opts r :: (← assemble opts none rest)) = _
      rw [hended, hall]
      rfl
  | case6 chain offset r rest hgoes hlisted ihOpen ihEnded =>
    subst hopts
    have hlater : DotsEnd rest := fun offset s hs => hdots offset s (List.mem_cons_of_mem _ hs)
    have hshown : ¬ (r.isDot && !opts.includeDots) = true := by
      intro hhidden
      exact hlisted (by rw [(Bool.and_eq_true_iff.mp hhidden).1]; rfl)
    rw [assemble, if_neg hgoes, if_neg hshown]
    obtain ⟨entry, hjoin, h⟩ := except_bind_eq_ok h
    have hjoin' : (Entry.ofRecord opts r).joinTo chain = .ok entry := hjoin
    rw [hjoin']
    cases hmore : r.flags.isMultiExtent with
    | true =>
      rw [if_pos hmore] at h
      exact ihOpen entry hlater h
    | false =>
      rw [if_neg (by simp [hmore])] at h
      obtain ⟨later, hrest, hdone⟩ := except_bind_eq_ok h
      cases hdone
      obtain ⟨all, hall, hsub⟩ := ihEnded hlater hrest
      refine ⟨entry :: all, ?_, hsub.cons_cons _⟩
      show (assemble opts none rest >>= fun later => pure (entry :: later)) = _
      rw [hall]
      rfl

end Ecma119
