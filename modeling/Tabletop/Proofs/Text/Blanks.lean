import Mathlib.Data.List.TakeWhile
import Tabletop.Text

/-! Blank texts, and what is not blank. -/

set_option autoImplicit false

namespace Tabletop

/-- Nothing but blanks, perhaps none. -/
def Blank (text : List Char) : Prop := ∀ char ∈ text, isBlank char = true

instance : DecidablePred Blank := fun text =>
  List.decidableBAll (fun char => isBlank char = true) text

theorem not_isDigit_of_isBlank {char : Char} (blank : isBlank char = true) :
    char.isDigit = false := by
  unfold Char.isDigit
  simp only [isBlank, Bool.or_eq_true, Bool.and_eq_true, beq_iff_eq, decide_eq_true_eq,
    Char.toNat, Bool.and_eq_false_iff, decide_eq_false_iff_not, ge_iff_le, UInt32.le_iff_toNat_le] at blank ⊢
  have first : ('0'.val).toNat = 48 := rfl
  have last : ('9'.val).toNat = 57 := rfl
  omega

theorem ne_of_isBlank {char other : Char} (blank : isBlank char = true)
    (visible : isBlank other = false) : char ≠ other := by
  rintro rfl
  rw [blank] at visible
  cases visible

namespace Blank

@[simp] theorem nil : Blank [] := by
  intro char member
  cases member

@[simp] theorem cons_iff {char : Char} {text : List Char} :
    Blank (char :: text) ↔ isBlank char = true ∧ Blank text :=
  List.forall_mem_cons

@[simp] theorem append_iff {first second : List Char} :
    Blank (first ++ second) ↔ Blank first ∧ Blank second :=
  List.forall_mem_append

end Blank

theorem trim_append {gap text : List Char} (blank : Blank gap) : trim (gap ++ text) = trim text := by
  unfold trim
  rw [List.dropWhile_append_of_pos blank]

theorem trim_append_blank {text gap : List Char} (blank : Blank gap) :
    trim (text ++ gap) = trim text := by
  unfold trim
  rw [List.dropWhile_append]
  split
  · next nothing =>
    rw [List.isEmpty_iff.1 nothing, List.dropWhile_eq_nil_iff.2 blank]
  · rw [List.reverse_append, List.dropWhile_append_of_pos fun char member =>
      blank char (List.mem_reverse.1 member)]

theorem head?_trim (text : List Char) :
    (trim text).head? = text.find? fun char => !isBlank char := by
  have leading := List.find?_eq_head?_dropWhile_not (fun char => !isBlank char) text
  simp only [Bool.not_not] at leading
  rw [leading, trim]
  have visible := List.head?_dropWhile_not isBlank text
  cases shown : text.dropWhile isBlank with
  | nil => rfl
  | cons first rest =>
    rw [shown] at visible
    change isBlank first = false at visible
    -- The blanks at the end are removed up to the first character at the latest.
    rw [List.reverse_cons, List.dropWhile_append]
    split <;> simp [visible]

theorem getLast?_trim (text : List Char) : ∀ char ∈ (trim text).getLast?, isBlank char = false := by
  intro char last
  rw [trim, List.getLast?_reverse] at last
  have visible := List.head?_dropWhile_not isBlank (text.dropWhile isBlank).reverse
  rw [Option.mem_def.1 last] at visible
  exact visible

end Tabletop
