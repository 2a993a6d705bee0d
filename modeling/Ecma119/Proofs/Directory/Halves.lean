import Ecma119.Directory.Record
import Ecma119.Proofs.Halves

/-!
# Halves in directory records

A record has three numbers that are recorded both ways. How strict reading is makes no other
difference than whether their halves have to agree.
-/

namespace Ecma119.DirectoryRecord

/-- The sector of the extent, its size, and the number of the volume in its set. -/
def dualFields : List DualField := [⟨2, 4⟩, ⟨10, 4⟩, ⟨28, 2⟩]

/-- A record is decoded with the three numbers in its head reconciled, and nothing else in it depends on
the policy. -/
theorem reconciles_decoder : Reconciles dualFields fun policy => (decoder policy).decode := by
  apply Reconciles.of_eq
  · apply Reconciles.bind_const .byte
    intro length
    apply Reconciles.bind_const .byte
    intro extAttrLength
    apply Reconciles.bind .dual32 (by decide) .dual32
    intro extent
    apply Reconciles.bind .dual32 (by decide) .dual32
    intro size
    apply Reconciles.bind_const (.field 7)
    intro recordingTime
    apply Reconciles.bind_const .byte
    intro flags
    apply Reconciles.bind_const .byte
    intro fileUnitSize
    apply Reconciles.bind_const .byte
    intro interleaveGap
    apply Reconciles.bind .dual16 (by decide) .dual16
    intro volumeSequenceNumber
    exact .const _
  · rfl

/-- The lengths in a record are in none of the halves, so that alike records pass the same checks. -/
theorem getD_of_alikeBut {data data' : Bytes} (h : AlikeBut dualFields data data') {index : Nat}
    (hindex : index = 0 ∨ index = 32) : data'.getD index 0 = data.getD index 0 := by
  have hplace : ∀ f ∈ dualFields, ¬ f.InLastHalf index := by
    unfold DualField.InLastHalf
    rcases hindex with rfl | rfl <;> decide
  rw [List.getD_eq_getElem?_getD, List.getD_eq_getElem?_getD, h.getElem?_eq index hplace]

/-- Strict reading of a record is lenient reading of one whose halves agree, with the same result. -/
theorem reconciles_parse : Reconciles dualFields parse := by
  apply reconciles_decoder.cut .truncatedRecord fun data =>
    if lengthsAgree data then some (data.getD 0 0).toNat else none
  · intro data data' h
    have hlength := getD_of_alikeBut h (.inl rfl)
    have hname := getD_of_alikeBut h (.inr rfl)
    have hagree : lengthsAgree data' = lengthsAgree data := by
      simp only [lengthsAgree, hlength, hname, h.length_eq]
    rw [hagree, hlength]
  · intro data n hn f hf
    have hmin : 34 ≤ n := by
      rw [Option.mem_def] at hn
      split at hn
      · next hagree =>
        cases hn
        simp only [lengthsAgree, Bool.and_eq_true, decide_eq_true_eq] at hagree
        exact hagree.1.1.1
      · cases hn
    have hends : ∀ f ∈ dualFields, f.EndsBy 34 := by decide
    exact Nat.le_trans (hends f hf) hmin
  · intro policy data
    rw [parse]
    split <;> rfl

end Ecma119.DirectoryRecord
