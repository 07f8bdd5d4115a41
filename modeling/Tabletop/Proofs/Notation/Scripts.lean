import Tabletop.Proofs.Notation.DiceText
import Tabletop.Proofs.Scripts

/-! Scripts behind notation.

Numbered dice that are read from notation show the values a script was written for, in turn and
over again. -/

set_option autoImplicit false

namespace Tabletop

namespace Scripted

/-- The value that numbered sides show at an entry written for one of these values in its turn. A
value below one stands for one, and values beyond the sides begin again at one. -/
def shownValue (values : List Nat) (some_value : 0 < values.length) (sides index : Nat) : Int :=
  let value := values.get ⟨index % values.length, Nat.mod_lt _ some_value⟩
  ((max value 1 - 1) % sides + 1 : Nat)

theorem value_face {die : Die} {sides : Nat} (listed : die.faces = Die.numberedFaces sides)
    {values : List Nat} (some_value : 0 < values.length) (index : Nat) :
    (die.face (ofValues values) index).value = shownValue values some_value sides index := by
  have some_entry : 0 < (values.map (· - 1)).length := by rwa [List.length_map]
  have stands := getElem?_face die some_entry index
  rw [listed, Die.length_numberedFaces, Die.getElem?_numberedFaces] at stands
  split at stands
  · have same := Option.some.inj stands
    have positive : ∀ value, max value 1 - 1 = value - 1 := by omega
    rw [ofValues, ← same]
    simp only [shownValue, Face.numbered, List.get_eq_getElem, List.getElem_map, List.length_map,
      positive]
    rfl
  · cases stands

theorem map_shownValue {values : List Nat} {sides : Nat} (some_value : 0 < values.length)
    (within : ∀ value ∈ values, 1 ≤ value ∧ value ≤ sides) :
    (List.range values.length).map (shownValue values some_value sides) =
      values.map Int.ofNat := by
  apply List.ext_getElem
  · simp
  · intro index before behind
    have place : index < values.length := by simpa using behind
    obtain ⟨least, greatest⟩ := within values[index] (List.getElem_mem place)
    simp only [shownValue, List.getElem_map, List.getElem_range, List.get_eq_getElem,
      Nat.mod_eq_of_lt place]
    rw [Nat.max_eq_left least, Nat.mod_eq_of_lt (by omega), Nat.sub_add_cancel least]
    rfl

end Scripted

namespace Notation

open Scripted (shownValue)

variable {limits : Limits} {count sides : Nat} {values : List Nat}

theorem evaluate_on_script (some_value : 0 < values.length) (positive : 0 < count)
    (two : 2 ≤ sides) (counted : count ≤ maxCount) (within : (sides : Int) ≤ maxValue)
    (few : count ≤ limits.dice) (small : sides ≤ limits.faces) :
    ∃ roll, ((evaluate limits (toString count ++ "d" ++ toString sides)).run
        (Scripted.ofValues values)).value = .ok roll ∧
      Die.numbered sides = .ok roll.die ∧
      roll.values = (List.range count).map (shownValue values some_value sides) := by
  obtain ⟨die, built, sided⟩ := Die.numbered_of_le two within
  have listed : die.faces = Die.numberedFaces sides :=
    Die.faces_of_numbered (by simp only [maxValue] at within; simp only [maxCount]; omega) built
  have length : die.faces.length = sides := by rw [listed, Die.length_numberedFaces]
  have text : (⟨count, die, positive⟩ : Dice).text = toString count ++ "d" ++ toString sides := by
    rw [Dice.text, sided.text, String.append_assoc]
    rfl
  obtain ⟨rolled, _⟩ := @evaluate_text_of_isNumbered _ _ ⟨count, die, positive⟩ limits
    (Scripted.ofValues values) sided.isNumbered (by rwa [length]) counted
  have read := (rolled ⟨few, by rwa [length]⟩).value
  rw [text, Dice.run_roll] at read
  refine ⟨_, read, built, ?_⟩
  rw [Roll.values, Die.shown, List.map_map]
  exact List.map_congr_left fun index _ => Scripted.value_face listed some_value index

end Notation

/-- A call that leaves no choice, or a script without entries, is answered by zero and leaves the
source as it was. Every other call of a run takes the next entry, and the first one again after the
last, whatever was asked before it. So dice that notation asks for within the limits show the values
the script was written for: each value as it is, if there is one for each of the dice and all are on
them. -/
theorem Scripted.script_followed :
    (∀ (source : Scripted) below, below = 0 ∨ source.script = [] →
      Source.index below source = (0, source)) ∧
    (∀ script bounds, (Source.calls (ofList script) bounds).map Call.below = bounds ∧
      ∀ (number : Nat) call, (Source.calls (ofList script) bounds)[number]? = some call →
        Answers script ((bounds.take number).countP (0 < ·)) call) ∧
    ∀ (limits : Notation.Limits) (count sides : Nat) (values : List Nat)
        (some_value : 0 < values.length),
      0 < count → count ≤ limits.dice → count ≤ maxCount →
      2 ≤ sides → sides ≤ limits.faces → (sides : Int) ≤ maxValue →
      ∃ roll, ((Notation.evaluate limits (toString count ++ "d" ++ toString sides)).run
          (ofValues values)).value = .ok roll ∧
        Die.numbered sides = .ok roll.die ∧
        roll.values = (List.range count).map (shownValue values some_value sides) ∧
        (values.length = count → (∀ value ∈ values, 1 ≤ value ∧ value ≤ sides) →
          roll.values = values.map Int.ofNat) := by
  refine ⟨fun source below => index_idle, fun script bounds => ⟨?_, fun number call => ?_⟩, ?_⟩
  · exact Source.map_below_calls _ _
  · exact answers_calls
  · intro limits count sides values some_value positive few counted two small within
    obtain ⟨roll, read, built, shown⟩ :=
      Notation.evaluate_on_script some_value positive two counted within few small
    refine ⟨roll, read, built, shown, ?_⟩
    rintro rfl all
    exact shown.trans (map_shownValue some_value all)

theorem Scripted.script_followed_around :
    (Source.calls (ofList [4, 9]) [3, 0, 5, 2])[3]? = some ⟨2, 0⟩ ∧
    Answers [4, 9] 2 ⟨2, 0⟩ ∧
    Source.index 0 (ofList [4, 9]) = (0, ofList [4, 9]) ∧
    (∃ roll, ((Notation.evaluate .standard "3d6").run (ofValues [7, 0])).value = .ok roll ∧
      Die.numbered 6 = .ok roll.die ∧ roll.values = [1, 1, 1]) ∧
    ∃ roll, ((Notation.evaluate .standard "3d6").run (ofValues [2, 6, 5])).value = .ok roll ∧
      roll.values = [2, 6, 5] := by
  obtain ⟨idle, calls, evaluated⟩ := script_followed
  have made : (Source.calls (ofList [4, 9]) [3, 0, 5, 2])[3]? = some ⟨2, 0⟩ := by decide
  refine ⟨made, (calls _ _).2 3 _ made, idle _ 0 (.inl rfl), ?_, ?_⟩
  · obtain ⟨roll, read, built, shown, _⟩ := evaluated .standard 3 6 [7, 0] (by decide) (by decide)
      (by decide) (by decide) (by decide) (by decide) (by decide)
    exact ⟨roll, read, built, shown⟩
  · obtain ⟨roll, read, _, _, whole⟩ := evaluated .standard 3 6 [2, 6, 5] (by decide) (by decide)
      (by decide) (by decide) (by decide) (by decide) (by decide)
    exact ⟨roll, read, whole rfl (by decide)⟩

end Tabletop
