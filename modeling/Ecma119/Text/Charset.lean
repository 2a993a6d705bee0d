import Ecma119.Bytes
import Ecma119.Error
import Ecma119.Text.Utf8

/-!
# Ends of texts, d-characters and a-characters

Padding is taken off the end of a field, and a version or an extension is cut off at the last
separator of a name. Both are functions on lists, so that they serve bytes and characters alike.

The text fields of a volume descriptor hold characters of a small set and are filled up with spaces.
-/

namespace Ecma119

/-! ## The ends of lists -/

section Ending

variable {α : Type}

/-- The list without the run of elements at its end that satisfy `p`. -/
def dropTrailing (p : α → Bool) (l : List α) : List α := (l.reverse.dropWhile p).reverse

/-- What stands before and after the last `x`, if there is one. -/
def cutLast? [DecidableEq α] (x : α) : List α → Option (List α × List α)
  | [] => none
  | y :: rest =>
    match cutLast? x rest with
    | some (before, after) => some (y :: before, after)
    | none => if y = x then some ([], rest) else none

/-- The cut takes out one `x` and nothing else, and no `x` comes after it, so that it is the last. -/
theorem cutLast?_eq_some [DecidableEq α] {x : α} {l before after : List α}
    (h : cutLast? x l = some (before, after)) : l = before ++ x :: after ∧ x ∉ after := by
  fun_induction cutLast? x l generalizing before after with
  | case1 => simp at h
  | case2 y rest b a hrest ih =>
    obtain ⟨rfl, rfl⟩ : y :: b = before ∧ a = after := by simpa using h
    obtain ⟨hl, hx⟩ := ih hrest
    exact ⟨by rw [hl, List.cons_append], hx⟩
  | case3 rest hrest ih =>
    obtain ⟨rfl, rfl⟩ : [] = before ∧ rest = after := by simpa using h
    refine ⟨rfl, ?_⟩
    clear h ih
    induction rest with
    | nil => simp
    | cons z zs ihz =>
      simp only [cutLast?] at hrest
      split at hrest
      · simp at hrest
      · next hz =>
        split at hrest
        · simp at hrest
        · next hzx => simp [ihz hz, Ne.symm hzx]
  | case4 => simp at h

end Ending

/-! ## Text fields -/

/-- Whether the code is that of a d-character: a capital letter, a digit or the underline. -/
def isDCharacter (code : Nat) : Bool :=
  (0x41 ≤ code ∧ code ≤ 0x5A) || (0x30 ≤ code ∧ code ≤ 0x39) || code = 0x5F

/-- Whether the code is that of an a-character: a d-character, or one of
space ! " % & ' ( ) * + , - . / : ; < = > ? -/
def isACharacter (code : Nat) : Bool :=
  (0x20 ≤ code ∧ code ≤ 0x22) || (0x25 ≤ code ∧ code ≤ 0x3F) || isDCharacter code

/-- The characters that a text field may hold. -/
inductive Charset where
  | dCharacters
  | aCharacters
  /-- Whatever there is. -/
  | any
deriving DecidableEq

/-- Whether the set has the character of this code. -/
def Charset.permits : Charset → Nat → Bool
  | .dCharacters, code => isDCharacter code
  | .aCharacters, code => isACharacter code
  | .any, _ => true

/-- The field of `width` bytes that holds the text, filled up with spaces. A text that is too long is
reported as such even where it has a character outside the set too. -/
def Charset.pad (charset : Charset) (width : Nat) (text : String) :
    Except FormatError (Field width) :=
  let bytes := Utf8.encode text
  if width < bytes.length then .error (.fieldOverflow bytes.length width)
  else if bytes.all (fun b => charset.permits b.toNat) then .ok (Field.ofBytes width bytes 0x20)
  else .error .invalidName

def trimSpaces (bytes : Bytes) : Bytes := dropTrailing (· == 0x20) bytes

/-- The text of a field, if it is well formed without the spaces at its end. -/
def trimmedText? (bytes : Bytes) : Except Nat String := Utf8.decode? (trimSpaces bytes)

/-- The text of a field, whatever its bytes: without spaces behind it, and with a replacement for what is
not UTF-8. -/
def trimmedText (bytes : Bytes) : String := Utf8.decodeLossy (trimSpaces bytes)

end Ecma119
