import Ecma119.Name
import Ecma119.Proofs.Text.Ending
import Mathlib.Data.Nat.Digits.Defs
import Mathlib.Data.String.Basic

/-!
# Versions behind names

A version is a semicolon and up to five digits. It is found again behind whatever name it was put
behind, and what is left of the name is the name without a dot at its end.
-/

namespace Ecma119.Name

/-! ## The digits of a version -/

/-- The digits of a version, as it is written behind the semicolon. -/
def versionDigits (version : UInt16) : List Char := (toString version.toNat).toList

variable {version : UInt16} {name : List Char}

theorem versionDigits_eq (version : UInt16) :
    versionDigits version = Nat.toDigits 10 version.toNat := Nat.toList_repr

/-- A version is written in digits only. -/
theorem isDigit_of_mem_versionDigits {c : Char} (h : c ∈ versionDigits version) :
    c.isDigit = true := by
  rw [versionDigits_eq] at h
  exact Nat.isDigit_of_mem_toDigits (by decide) (by decide) h

/-- A version has at most five digits, as it is less than `2 ^ 16`. -/
theorem length_versionDigits_le (version : UInt16) : (versionDigits version).length ≤ 5 := by
  have hlt : version.toNat < 10 ^ 5 := Nat.lt_trans version.toNat_lt (by decide)
  rw [versionDigits_eq]
  exact Nat.toDigits_length 10 _ 5 (by decide) hlt

/-- A character that is no digit, such as a semicolon or a dot, does not occur in a version. -/
theorem not_mem_versionDigits {c : Char} (h : c.isDigit = false) : c ∉ versionDigits version := by
  intro hmem
  rw [isDigit_of_mem_versionDigits hmem] at h
  cases h

/-- A digit is one byte, so that a version takes as many bytes as it has digits. -/
theorem utf8Len_of_isDigit {digits : List Char} (h : ∀ c ∈ digits, c.isDigit = true) :
    String.utf8Len digits = digits.length := by
  induction digits with
  | nil => rfl
  | cons c digits ih =>
    obtain ⟨hc, hdigits⟩ := List.forall_mem_cons.mp h
    have hsize : c.utf8Size = 1 := by
      rw [Char.utf8Size_eq_one_iff, UInt32.le_iff_toNat_le]
      exact Nat.le_trans (Char.isDigit_iff_toNat.mp hc).2 (by decide)
    rw [String.utf8Len_cons, ih hdigits, hsize, List.length_cons]

/-! ## Taking a version off -/

/-- The name without the dot at its end, if it has one. -/
def withoutFinalDot (name : List Char) : List Char :=
  if name.getLast? = some '.' then name.dropLast else name

/-- The version goes, and the dot before it unless that is the whole name; nothing else does. -/
theorem stripVersionChars_versioned (version : UInt16) (h : name ≠ ['.']) :
    stripVersionChars (name ++ ';' :: versionDigits version) = withoutFinalDot name := by
  have hcut : cutLast? ';' (name ++ ';' :: versionDigits version) =
      some (name, versionDigits version) :=
    cutLast?_append_cons name (not_mem_versionDigits (by decide))
  have hdigits : (versionDigits version).all Char.isDigit = true :=
    List.all_eq_true.mpr fun _ => isDigit_of_mem_versionDigits
  simp only [stripVersionChars, hcut, hdigits, if_true]
  rw [withoutFinalDot]
  by_cases hdot : name.getLast? = some '.'
  · obtain ⟨stem, rfl⟩ := List.getLast?_eq_some_iff.mp hdot
    have hstem : stem ≠ [] := by
      rintro rfl
      exact h rfl
    rw [if_pos hdot, cutLast?_append_cons stem (by simp), List.dropLast_concat]
    simp [hstem]
  · rw [if_neg hdot]
    split
    · next stem hstem =>
      obtain ⟨rfl, -⟩ := cutLast?_eq_some hstem
      exact absurd List.getLast?_concat hdot
    · rfl

end Ecma119.Name
