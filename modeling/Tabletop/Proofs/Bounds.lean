import Tabletop.Proofs.Saturation
import Tabletop.Roll

/-! Sums of dice and rolls within their bounds. -/

set_option autoImplicit false

namespace Tabletop

theorem Die.lowest_le {die : Die} {face : Face} (member : face ∈ die.faces) :
    die.lowest.value ≤ face.value :=
  List.apply_minOn_le_of_mem member

theorem Die.le_highest {die : Die} {face : Face} (member : face ∈ die.faces) :
    face.value ≤ die.highest.value :=
  List.le_apply_maxOn_of_mem member

theorem Die.lowest_le_highest (die : Die) : die.lowest.value ≤ die.highest.value :=
  Die.lowest_le List.maxOn_mem

theorem Dice.lowest_le_highest (dice : Dice) : dice.lowest ≤ dice.highest :=
  scaled_mono dice.count dice.die.lowest_le_highest

theorem Dice.minValue_le_lowest (dice : Dice) : minValue ≤ dice.lowest :=
  minValue_le_saturate _

theorem Dice.highest_le_maxValue (dice : Dice) : dice.highest ≤ maxValue :=
  saturate_le_maxValue _

/-- The bounds of dice are the exact products, brought into the range. The one exception are more
dice than the greatest value whose bound is minus one each: theirs is one too great. -/
theorem Dice.bounds_exact (dice : Dice) :
    (dice.lowest =
      if maxValue < dice.count ∧ dice.die.lowest.value = -1 then minValue + 1
      else saturate (dice.count * dice.die.lowest.value)) ∧
    (dice.highest =
      if maxValue < dice.count ∧ dice.die.highest.value = -1 then minValue + 1
      else saturate (dice.count * dice.die.highest.value)) :=
  ⟨scaled_eq dice.count dice.die.lowest.value, scaled_eq dice.count dice.die.highest.value⟩

/-- The exact product of `2 ^ 63` and minus one is the least value, but the bound is above it. -/
theorem Dice.lowest_ne_product :
    let die : Die := ⟨[Face.numbered (-1), Face.numbered 0], by decide⟩
    let dice : Dice := ⟨9223372036854775808, die, by decide⟩
    dice.lowest = minValue + 1 ∧ saturate (dice.count * dice.die.lowest.value) = minValue := by
  decide

/-- The roll is of the die and shows faces of it, with a sum within its bounds. A bound counts no
more faces than the greatest value, so it does not bind the sum of more. -/
structure Roll.Sound (die : Die) (roll : Roll) : Prop where
  same : roll.die = die
  faces : ∀ face ∈ roll.faces, face ∈ die.faces
  bounds : (roll.size : Int) ≤ maxValue → roll.lowest ≤ roll.sum ∧ roll.sum ≤ roll.highest

theorem Roll.Sound.of_faces {die : Die} {faces : List Face}
    (shown : ∀ face ∈ faces, face ∈ die.faces) : Roll.Sound die ⟨die, faces⟩ where
  same := rfl
  faces := shown
  bounds := by
    intro within
    have length : (values ⟨die, faces⟩).length = size ⟨die, faces⟩ := List.length_map _
    rw [← length] at within
    unfold lowest highest sum
    rw [← length]
    refine ⟨scaled_le_saturatingSum within ?_, saturatingSum_le_scaled within ?_⟩
    · exact List.forall_mem_map.2 fun face member => Die.lowest_le (shown face member)
    · exact List.forall_mem_map.2 fun face member => Die.le_highest (shown face member)

end Tabletop
