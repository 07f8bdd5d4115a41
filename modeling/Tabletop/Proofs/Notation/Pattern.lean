import Tabletop.Notation.Spelling
import Tabletop.Proofs.Text.Digits

/-! The six patterns of dice notation, and how a match goes on into the text behind it. -/

set_option autoImplicit false

namespace Tabletop.Notation

inductive DigitList : List (List Char) → List Char → Prop where
  | single {run : List Char} : Digits run → DigitList [run] run
  | cons {run text : List Char} {runs : List (List Char)} :
      Digits run → DigitList runs text → DigitList (run :: runs) (run ++ ',' :: text)

/-- The text matches the pattern of an operation, with these numerals. -/
inductive Spells : Spelling → List Char → Prop where
  | dice {count faces : List Char} :
      Digits count → Digits faces → Spells (.dice count faces) (count ++ 'd' :: faces)
  | keep {side : Side} {count : List Char} :
      Digits count → Spells (.keep side count) ('K' :: side.letter :: count)
  | drop {side : Side} {count : List Char} :
      Digits count → Spells (.drop side count) ('D' :: side.letter :: count)
  | keepValues {values : List (List Char)} {list : List Char} :
      DigitList values list → Spells (.keepValues values) ('K' :: 'n' :: list)
  | dropValues {values : List (List Char)} {list : List Char} :
      DigitList values list → Spells (.dropValues values) ('D' :: 'n' :: list)
  | explode {values : List (List Char)} {list : List Char} :
      DigitList values list → Spells (.explode values) ('X' :: list)

def Operation.IsDice {ν : Type} : Operation ν → Prop
  | .dice _ _ => True
  | .keep _ _ | .drop _ _ | .keepValues _ | .dropValues _ | .explode _ => False

instance {ν : Type} : DecidablePred (@Operation.IsDice ν)
  | .dice _ _ => inferInstanceAs (Decidable True)
  | .keep _ _ | .drop _ _ | .keepValues _ | .dropValues _ | .explode _ =>
    inferInstanceAs (Decidable False)

/-- A list of digits does not go on: neither with a digit nor with a comma and a digit. -/
def ListEnds (rest : List Char) : Prop :=
  DigitsEnd rest ∧ ∀ behind, rest = ',' :: behind → DigitsEnd behind

theorem not_listEnds {rest : List Char} (goesOn : ¬ListEnds rest) :
    (∃ char behind, rest = char :: behind ∧ char.isDigit = true) ∨
      ∃ char behind, rest = ',' :: char :: behind ∧ char.isDigit = true := by
  unfold ListEnds at goesOn
  by_cases digits : DigitsEnd rest
  · right
    simp only [digits, true_and, Classical.not_forall] at goesOn
    obtain ⟨behind, rfl, list⟩ := goesOn
    obtain ⟨char, left, rfl, isDigit⟩ := not_digitsEnd_iff.1 list
    exact ⟨char, left, rfl, isDigit⟩
  · left
    exact not_digitsEnd_iff.1 digits

/-- The spelling does not go on in the text behind it. -/
def Spelling.Ends : Spelling → List Char → Prop
  | .dice _ _ | .keep _ _ | .drop _ _ => DigitsEnd
  | .keepValues _ | .dropValues _ | .explode _ => ListEnds

theorem Spelling.ends_nil (spelling : Spelling) : spelling.Ends [] := by
  have list : ListEnds [] := ⟨digitsEnd_nil, by simp⟩
  cases spelling <;> first | exact digitsEnd_nil | exact list

theorem Spelling.Ends.digitsEnd {spelling : Spelling} {rest : List Char}
    (ends : spelling.Ends rest) : DigitsEnd rest := by
  cases spelling
  case dice | keep | drop => exact ends
  case keepValues | dropValues | explode => exact ends.1

theorem Spelling.ends_cons (spelling : Spelling) {char : Char} {rest : List Char}
    (noDigit : char.isDigit = false) (noComma : char ≠ ',') : spelling.Ends (char :: rest) := by
  have digits : DigitsEnd (char :: rest) := digitsEnd_cons.2 noDigit
  have list : ListEnds (char :: rest) :=
    ⟨digits, fun behind same => absurd (List.cons.inj same).1 noComma⟩
  cases spelling <;> first | exact digits | exact list

namespace DigitList

theorem ne_nil {runs : List (List Char)} {text : List Char} (list : DigitList runs text) :
    runs ≠ [] := by
  cases list <;> simp

theorem text_eq {runs : List (List Char)} {text : List Char} (list : DigitList runs text) :
    text = [','].intercalate runs := by
  induction list with
  | single run => simp [List.intercalate]
  | @cons run text runs _ tail ih =>
    obtain ⟨second, others, rfl⟩ := List.exists_cons_of_ne_nil tail.ne_nil
    rw [ih]
    simp [List.intercalate]

theorem first {run text : List Char} {runs : List (List Char)} {char : Char}
    (list : DigitList (run :: runs) text) (isDigit : char.isDigit = true) :
    DigitList ((char :: run) :: runs) (char :: text) := by
  have one : Digits [char] := ⟨by simp, by simp [isDigit]⟩
  cases list with
  | single run => exact .single (one.append run.2)
  | cons run tail => exact .cons (one.append run.2) tail

theorem digit {runs : List (List Char)} {text : List Char} (list : DigitList runs text)
    {char : Char} (isDigit : char.isDigit = true) : ∃ longer, DigitList longer (text ++ [char]) := by
  have one : ∀ other ∈ [char], other.isDigit = true := by simp [isDigit]
  induction list with
  | single run => exact ⟨_, .single (run.append one)⟩
  | @cons run text runs digits _ ih =>
    obtain ⟨longer, tail⟩ := ih
    exact ⟨run :: longer, by simpa using tail.cons digits⟩

theorem comma {runs : List (List Char)} {text : List Char} (list : DigitList runs text)
    {char : Char} (isDigit : char.isDigit = true) :
    ∃ longer, DigitList longer (text ++ [',', char]) := by
  have one : Digits [char] := ⟨by simp, by simp [isDigit]⟩
  induction list with
  | single run => exact ⟨_, .cons run (.single one)⟩
  | @cons run text runs digits _ ih =>
    obtain ⟨longer, tail⟩ := ih
    exact ⟨run :: longer, by simpa using tail.cons digits⟩

theorem extend {runs : List (List Char)} {text : List Char} (list : DigitList runs text)
    (rest : List Char) : ∃ longer more behind,
      rest = more ++ behind ∧ DigitList longer (text ++ more) ∧ ListEnds behind := by
  by_cases ends : ListEnds rest
  · exact ⟨runs, [], rest, rfl, by simpa using list, ends⟩
  · -- Either a digit follows or a comma with a digit behind it; both make the list longer.
    obtain ⟨added, left, shorter, rfl, _, next⟩ : ∃ added left, left.length < rest.length ∧
        rest = added ++ left ∧ ∃ longer, DigitList longer (text ++ added) := by
      rcases not_listEnds ends with ⟨char, left, rfl, isDigit⟩ | ⟨char, left, rfl, isDigit⟩
      · exact ⟨[char], left, by simp, rfl, list.digit isDigit⟩
      · exact ⟨[',', char], left, by simp only [List.length_cons]; omega, rfl, list.comma isDigit⟩
    obtain ⟨longer, more, behind, rfl, all, ends⟩ := next.extend left
    exact ⟨longer, added ++ more, behind, by simp, by simpa using all, ends⟩
termination_by rest.length

end DigitList

namespace Spells

theorem extend {spelling : Spelling} {text : List Char} (spells : Spells spelling text)
    (rest : List Char) : ∃ (longer : Spelling) (more behind : List Char),
      rest = more ++ behind ∧ Spells longer (text ++ more) ∧ longer.Ends behind := by
  have split : rest = rest.takeWhile Char.isDigit ++ rest.dropWhile Char.isDigit :=
    List.takeWhile_append_dropWhile.symm
  have grown : ∀ {digits : List Char}, Digits digits →
      Digits (digits ++ rest.takeWhile Char.isDigit) := fun digits =>
    digits.append (List.all_eq_true.1 List.all_takeWhile)
  have ends := digitsEnd_dropWhile rest
  cases spells with
  | dice count faces =>
    exact ⟨.dice _ _, _, _, split, by simpa using Spells.dice count (grown faces), ends⟩
  | keep count => exact ⟨.keep _ _, _, _, split, .keep (grown count), ends⟩
  | drop count => exact ⟨.drop _ _, _, _, split, .drop (grown count), ends⟩
  | keepValues list =>
    obtain ⟨longer, more, behind, same, all, ends⟩ := list.extend rest
    exact ⟨.keepValues longer, more, behind, same, .keepValues all, ends⟩
  | dropValues list =>
    obtain ⟨longer, more, behind, same, all, ends⟩ := list.extend rest
    exact ⟨.dropValues longer, more, behind, same, .dropValues all, ends⟩
  | explode list =>
    obtain ⟨longer, more, behind, same, all, ends⟩ := list.extend rest
    exact ⟨.explode longer, more, behind, same, .explode all, ends⟩

theorem text_eq {spelling : Spelling} {text : List Char} (spells : Spells spelling text) :
    text = spelling.text := by
  cases spells with
  | dice | keep | drop => simp [Spelling.text, Operation.chars]
  | keepValues list | dropValues list | explode list =>
    simp [Spelling.text, Operation.chars, list.text_eq]

theorem exists_cons {spelling : Spelling} {text : List Char} (spells : Spells spelling text) :
    ∃ char rest, text = char :: rest ∧
      (spelling.IsDice ∧ char.isDigit = true ∨
        ¬spelling.IsDice ∧ (char = 'K' ∨ char = 'D' ∨ char = 'X')) := by
  cases spells with
  | dice count _ =>
    obtain ⟨char, others, rfl, isDigit⟩ := count.exists_cons
    exact ⟨char, _, rfl, .inl ⟨trivial, isDigit⟩⟩
  | keep | keepValues => exact ⟨'K', _, rfl, .inr ⟨id, by simp⟩⟩
  | drop | dropValues => exact ⟨'D', _, rfl, .inr ⟨id, by simp⟩⟩
  | explode => exact ⟨'X', _, rfl, .inr ⟨id, by simp⟩⟩

end Spells

end Tabletop.Notation
