import Tabletop.Proofs.Notation.Ending
import Tabletop.Proofs.Numbered

/-! Dice written out, and read as notation.

The text of numbered dice is a dice token, so it is read as the dice it was written for. The
text of other dice begins with digits, the letter and a bracket. No match begins with these
digits, so they stay behind, and nothing the labels say changes that. -/

set_option autoImplicit false

namespace Tabletop

theorem Dice.ofCount_count (dice : Dice) : Dice.ofCount dice.count dice.die = .ok dice :=
  dif_pos dice.count_pos

namespace Notation

def diceToken (dice : Dice) : Token := .dice dice.count dice.die.faces.length

theorem text_of_isNumbered {dice : Dice} (numbered : dice.die.isNumbered = true) :
    dice.text = (diceToken dice).text := by
  have letter : dice.die.text = "d" ++ toString dice.die.faces.length := if_pos numbered
  apply String.toList_inj.1
  simp [Dice.text, letter, diceToken, Token.text, Operation.chars]

theorem toList_text_of_labels {dice : Dice} (labelled : ¬dice.die.isNumbered = true) :
    ∃ labels, dice.text.toList = Nat.toDigits 10 dice.count ++ 'd' :: '[' :: labels := by
  rw [Dice.text, Die.text, if_neg labelled]
  exact ⟨(",".intercalate (dice.die.faces.map Face.label) ++ "]").toList, by simp⟩

theorem Spelling.atHead?_of_no_faces {count rest : List Char} (digits : Digits count)
    (ends : DigitsEnd rest) : atHead? (count ++ 'd' :: rest) = none := by
  have letter : DigitsEnd ('d' :: rest) := digitsEnd_cons.2 (by decide)
  have none : rest.takeWhile Char.isDigit = [] := by
    cases rest with
    | nil => rfl
    | cons char rest => simp [digitsEnd_cons.1 ends]
  have found : dice? (count ++ 'd' :: rest) = Option.none := by
    unfold dice?
    rw [digits.takeWhile_append letter, digits.dropWhile_append letter]
    obtain ⟨char, others, rfl, _⟩ := digits.exists_cons
    simp [withCount, none]
  obtain ⟨char, others, rfl, isDigit⟩ := digits.exists_cons
  rw [List.cons_append, atHead?_of_digit isDigit]
  exact found

theorem Scan.remainder?_of_labels (count : Nat) (labels : List Char) :
    (ofText (Nat.toDigits 10 count ++ 'd' :: '[' :: labels)).remainder? ≠ none := by
  have digits := Digits.toDigits count
  have ends : DigitsEnd ('[' :: labels) := digitsEnd_cons.2 (by decide)
  have stuck := Spelling.atHead?_of_no_faces digits ends
  obtain ⟨char, others, same, isDigit⟩ := digits.exists_cons
  rw [same, List.cons_append] at stuck ⊢
  intro clean
  have first : isBlank char = true := by
    apply remainder?_eq_none_iff.1 clean (0, char)
    simp [ofText, scanFrom, stuck, withResidue]
  rw [not_isDigit_of_isBlank first] at isDigit
  cases isDigit

/-- The dice are no more, and have no more faces, than a dice token may ask for. -/
def Limits.Admits (limits : Limits) (dice : Dice) : Prop :=
  dice.count ≤ limits.dice ∧ dice.die.faces.length ≤ limits.faces

instance (limits : Limits) (dice : Dice) : Decidable (limits.Admits dice) :=
  inferInstanceAs (Decidable (_ ∧ _))

section
variable {σ : Type} [Source σ] {dice : Dice} {limits : Limits} {source : σ}

theorem step_diceToken (numbered : dice.die.isNumbered = true)
    (within : (dice.die.faces.length : Int) ≤ maxValue) (before : Option Roll) :
    step limits (diceToken dice) before =
      if limits.Admits dice then .ok <$> dice.roll
      else pure (.error .overLimit) := by
  have made : Die.numbered dice.die.faces.length >>= Dice.ofCount dice.count = .ok dice := by
    rw [Die.numbered_length numbered within]
    exact dice.ofCount_count
  simp only [diceToken, step, made]
  split
  · next exceeds => rw [if_neg (by unfold Limits.Admits; omega)]
  · next fits => rw [if_pos (by unfold Limits.Admits; omega)]

theorem reads_text (numbered : dice.die.isNumbered = true)
    (within : (dice.die.faces.length : Int) ≤ maxValue) (counted : dice.count ≤ maxCount) :
    Reads 0 dice.text.toList [⟨diceToken dice, 0, dice.text⟩] := by
  have faces : dice.die.faces.length ≤ maxCount := by
    simp only [maxValue] at within
    simp only [maxCount]
    omega
  have writable : (diceToken dice).Writable := ⟨trivial, counted, faces⟩
  have reads := @reads_written [([], diceToken dice)] [] ⟨by simp, by simp⟩
    (List.forall_mem_singleton.2 writable) .nil
  simpa [written, writtenLexemes, text_of_isNumbered numbered] using reads

theorem run_steps_diceToken (numbered : dice.die.isNumbered = true)
    (within : (dice.die.faces.length : Int) ≤ maxValue) (admitted : limits.Admits dice) :
    (steps limits [diceToken dice] none).run source =
      { dice.roll.run source with value := .ok (some (dice.roll.run source).value) } := by
  simp only [steps, step_diceToken numbered within, if_pos admitted, Rolling.run_bind,
    Rolling.run_map]
  simp

theorem evaluate_text_of_isNumbered (numbered : dice.die.isNumbered = true)
    (within : (dice.die.faces.length : Int) ≤ maxValue) (counted : dice.count ≤ maxCount) :
    let read := (evaluate limits dice.text).run source
    let thrown := dice.roll.run source
    (limits.Admits dice → read.Same { thrown with value := .ok thrown.value }) ∧
      (¬limits.Admits dice → ∃ fault, read.value = .error fault) := by
  intro read thrown
  obtain ⟨sources, asked, values, _⟩ := @run_evaluate_of_reads _ _ limits _ _ source
    (reads_text numbered within counted) (List.cons_ne_nil _ _)
  constructor
  · intro admitted
    rw [List.map_singleton, run_steps_diceToken numbered within admitted] at sources asked values
    exact ⟨(values _).2 rfl, sources, asked⟩
  · intro exceeds
    cases ended : read.value with
    | error fault => exact ⟨fault, rfl⟩
    | ok roll =>
      have carried := (values roll).1 ended
      simp only [List.map_singleton, steps, step_diceToken numbered within, if_neg exceeds] at carried
      cases carried

theorem evaluate_text_of_labels (labelled : ¬dice.die.isNumbered = true) :
    ∃ fault, ((evaluate limits dice.text).run source).value = .error fault := by
  cases ended : ((evaluate limits dice.text).run source).value with
  | error fault => exact ⟨fault, rfl⟩
  | ok roll =>
    obtain ⟨_, _, clean, _⟩ := evaluated_of_ok ended
    obtain ⟨labels, text⟩ := toList_text_of_labels labelled
    rw [text] at clean
    exact absurd clean (Scan.remainder?_of_labels dice.count labels)

/-- The text of dice, whose count and values are in range, is evaluated as those dice are thrown if
they are numbered and within the limits. Otherwise it is refused, whatever the labels say. -/
theorem evaluate_dice_text (counted : dice.count ≤ maxCount)
    (valued : ∀ face ∈ dice.die.faces, face.value ≤ maxValue) (limits : Limits) (source : σ) :
    let read := (evaluate limits dice.text).run source
    let thrown := dice.roll.run source
    (dice.die.isNumbered = true ∧ limits.Admits dice →
      read.Same { thrown with value := .ok thrown.value }) ∧
    (¬(dice.die.isNumbered = true ∧ limits.Admits dice) → ∃ fault, read.value = .error fault) := by
  intro read thrown
  by_cases numbered : dice.die.isNumbered = true
  · have within := Die.length_le_of_isNumbered numbered valued
    obtain ⟨rolled, refused⟩ :=
      @evaluate_text_of_isNumbered _ _ _ limits source numbered within counted
    exact ⟨fun admitted => rolled admitted.2, fun exceeds =>
      refused fun admitted => exceeds ⟨numbered, admitted⟩⟩
  · exact ⟨fun admitted => absurd admitted.1 numbered, fun _ => evaluate_text_of_labels numbered⟩

theorem evaluate_dice_text_labels :
    let numbered : Dice := ⟨2, Die.d6, by decide⟩
    let labelled : Dice := ⟨2, ⟨[⟨1, "2d6"⟩, ⟨2, "] 2d6 ["⟩], by decide⟩, by decide⟩
    let source := Scripted.ofValues [5, 3]
    numbered.text = "2d6" ∧ labelled.text = "2d[2d6,] 2d6 []" ∧
      ((evaluate .standard "2d6").run source).value =
        .ok ⟨Die.d6, [.numbered 5, .numbered 3]⟩ ∧
      ∃ fault, ((evaluate .standard "2d[2d6,] 2d6 []").run source).value = .error fault := by
  intro numbered labelled source
  obtain ⟨rolled, _⟩ := @evaluate_dice_text _ _ numbered (by decide) (by decide) .standard source
  obtain ⟨_, refused⟩ := @evaluate_dice_text _ _ labelled (by decide) (by decide) .standard source
  have text : numbered.text = "2d6" := by decide +kernel
  have labels : labelled.text = "2d[2d6,] 2d6 []" := by decide +kernel
  rw [text] at rolled
  rw [labels] at refused
  exact ⟨text, labels, (rolled (by decide)).value, refused (by decide)⟩

end

end Notation

end Tabletop
