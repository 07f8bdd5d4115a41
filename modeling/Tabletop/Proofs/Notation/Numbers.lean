import Mathlib.Logic.Basic
import Tabletop.Proofs.Notation.Pattern

/-! The numbers of a spelling and the ranges they must lie in. -/

set_option autoImplicit false

namespace Tabletop.Notation

def Operation.map {ν μ : Type} (f : ν → μ) : Operation ν → Operation μ
  | .dice count faces => .dice (f count) (f faces)
  | .keep side count => .keep side (f count)
  | .drop side count => .drop side (f count)
  | .keepValues values => .keepValues (values.map f)
  | .dropValues values => .dropValues (values.map f)
  | .explode values => .explode (values.map f)

@[simp] theorem Operation.isDice_map {ν μ : Type} {f : ν → μ} {operation : Operation ν} :
    (operation.map f).IsDice ↔ operation.IsDice := by
  cases operation <;> exact Iff.rfl

def Spelling.decimals (spelling : Spelling) : Token := spelling.map decimal

/-- Each number of the token is in its range, which is that of counts or that of values. -/
def Token.Fits : Token → Prop
  | .dice count faces => count ≤ maxCount ∧ faces ≤ maxCount
  | .keep _ count | .drop _ count => count ≤ maxCount
  | .keepValues values | .dropValues values | .explode values =>
    ∀ value ∈ values, (value : Int) ≤ maxValue

instance : DecidablePred Token.Fits
  | .dice count faces => inferInstanceAs (Decidable (count ≤ maxCount ∧ faces ≤ maxCount))
  | .keep _ count | .drop _ count => inferInstanceAs (Decidable (count ≤ maxCount))
  | .keepValues values | .dropValues values | .explode values =>
    inferInstanceAs (Decidable (∀ value ∈ values, (value : Int) ≤ maxValue))

theorem le_maxValue_iff (value : Nat) : (value : Int) ≤ maxValue ↔ value ≤ maxValue.toNat := by
  simp only [maxValue]
  omega

theorem DigitList.digits {runs : List (List Char)} {text : List Char} (list : DigitList runs text) :
    ∀ run ∈ runs, Digits run := by
  induction list with
  | single digits => simpa using digits
  | cons digits _ ih => simpa using ⟨digits, ih⟩

theorem ite_ok_bind {ε α β : Type} {p : Prop} [Decidable p] (value : α) (error : ε)
    (next : α → Except ε β) :
    (if p then .ok value else .error error : Except ε α) >>= next =
      if p then next value else .error error := by
  split <;> rfl

theorem mapM_magnitude {limit : Nat} {beyond : NumeralFault} {runs : List (List Char)}
    (digits : ∀ run ∈ runs, Digits run) :
    runs.mapM (Numeral.magnitude limit beyond) =
      if ∀ run ∈ runs, decimal run ≤ limit then .ok (runs.map decimal) else .error beyond := by
  induction runs with
  | nil => rfl
  | cons run runs ih =>
    -- The first number out of range decides, but each gives the same fault.
    have others := ih fun other member => digits other (by simp [member])
    rw [List.mapM_cons, Numeral.magnitude_of_digits (digits run (by simp)), others]
    simp only [ite_ok_bind, List.forall_mem_cons, ite_and]
    rfl

theorem Spells.token_eq {spelling : Spelling} {text : List Char} (spells : Spells spelling text) :
    spelling.token =
      if spelling.decimals.Fits then .ok spelling.decimals else .error .tooLarge := by
  unfold Spelling.token Spelling.decimals
  cases spells with
  | dice first second =>
    simp only [Operation.read, Operation.map, Token.Fits, Numeral.magnitude_of_digits first,
      Numeral.magnitude_of_digits second, ite_ok_bind, ← ite_and]
    rfl
  | keep digits | drop digits =>
    simp only [Operation.read, Operation.map, Token.Fits, Numeral.magnitude_of_digits digits,
      ite_ok_bind]
    rfl
  | keepValues list | dropValues list | explode list =>
    simp only [Operation.read, Operation.map, Token.Fits, mapM_magnitude list.digits, ite_ok_bind,
      List.forall_mem_map, le_maxValue_iff]
    rfl

end Tabletop.Notation
