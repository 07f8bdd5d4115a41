import Tabletop.Proofs.Answers

/-! The dice behind the rolls of a pool.

A roll tells its die and how many faces it shows, so a pool can be read off what it
showed. A roll that has lost all its faces tells of no dice. It adds nothing to a sum and
draws nothing when it is thrown again, so nothing is missed by leaving it out. -/

set_option autoImplicit false

namespace Tabletop

section
variable {α β : Type} {pick : α → Option β} {value : α → Int} {weight : β → Int}

theorem foldl_saturatingAdd_filterMap {total : Int} (below : minValue ≤ total)
    (above : total ≤ maxValue) (picked : ∀ item made, pick item = some made → weight made = value item)
    (skipped : ∀ item, pick item = none → value item = 0) (items : List α) :
    ((items.filterMap pick).map weight).foldl saturatingAdd total =
      (items.map value).foldl saturatingAdd total := by
  induction items generalizing total with
  | nil => rfl
  | cons item items ih =>
    cases made : pick item with
    | some group =>
      rw [List.filterMap_cons_some made, List.map_cons, picked item group made]
      exact ih (minValue_le_saturate _) (saturate_le_maxValue _)
    | none =>
      -- A total of the range is not changed by zero.
      have same : saturatingAdd total 0 = total := by
        rw [saturatingAdd, Int.add_zero, saturate_of_mem below above]
      rw [List.filterMap_cons_none made, List.map_cons, skipped item made, List.foldl_cons, same]
      exact ih below above

theorem saturatingSum_filterMap
    (picked : ∀ item made, pick item = some made → weight made = value item)
    (skipped : ∀ item, pick item = none → value item = 0) (items : List α) :
    saturatingSum ((items.filterMap pick).map weight) = saturatingSum (items.map value) :=
  foldl_saturatingAdd_filterMap (by decide) (by decide) picked skipped items

end

namespace Roll

variable {roll : Roll} {dice : Dice}

theorem dice?_eq_some_iff : roll.dice? = some dice ↔ roll.size = dice.count ∧ roll.die = dice.die := by
  obtain ⟨count, die, count_pos⟩ := dice
  unfold dice?
  constructor
  · intro found
    split at found
    · cases found
      exact ⟨rfl, rfl⟩
    · cases found
  · rintro ⟨rfl, rfl⟩
    exact dif_pos count_pos

theorem dice?_eq_none_iff : roll.dice? = none ↔ roll.isEmpty = true := by
  unfold dice?
  rw [dite_eq_right_iff, isEmpty, List.isEmpty_iff_length_eq_zero]
  simp [size]

theorem roll_of_dice? (found : roll.dice? = some dice) : dice.roll = roll.reroll := by
  obtain ⟨size, die⟩ := dice?_eq_some_iff.1 found
  rw [reroll, Dice.roll, size, die]

end Roll

namespace PoolRoll

def shown (rolled : PoolRoll) : List Roll := rolled.rolls.filter fun roll => !roll.isEmpty

theorem forall₂_dice (rolled : PoolRoll) :
    List.Forall₂ (fun roll dice => roll.dice? = some dice) rolled.shown rolled.dice.groups := by
  obtain ⟨rolls⟩ := rolled
  unfold shown dice
  induction rolls with
  | nil => exact .nil
  | cons roll rolls ih =>
    cases found : roll.dice? with
    | none =>
      have empty := Roll.dice?_eq_none_iff.1 found
      rw [List.filter_cons_of_neg (by simp [empty]), List.filterMap_cons_none found]
      exact ih
    | some dice =>
      have not_empty : ¬roll.isEmpty = true := by
        rw [← Roll.dice?_eq_none_iff, found]
        exact Option.some_ne_none dice
      rw [List.filter_cons_of_pos (by simp [not_empty]), List.filterMap_cons_some found]
      exact .cons found ih

theorem groups_dice (rolled : PoolRoll) :
    rolled.dice.groups.map (fun dice => (dice.count, dice.die)) =
      rolled.shown.map fun roll => (roll.size, roll.die) := by
  have related := rolled.forall₂_dice
  generalize rolled.shown = rolls, rolled.dice.groups = groups at related ⊢
  induction related with
  | nil => rfl
  | cons found _ ih =>
    obtain ⟨size, die⟩ := Roll.dice?_eq_some_iff.1 found
    rw [List.map_cons, List.map_cons, ih, size, die]

theorem mapM_roll (rolled : PoolRoll) :
    rolled.dice.groups.mapM Dice.roll = rolled.shown.mapM Roll.reroll := by
  have related := rolled.forall₂_dice
  generalize rolled.shown = rolls, rolled.dice.groups = groups at related ⊢
  induction related with
  | nil => rfl
  | cons found _ ih => rw [List.mapM_cons, List.mapM_cons, ih, Roll.roll_of_dice? found]

theorem roll_dice (rolled : PoolRoll) :
    rolled.dice.roll = PoolRoll.mk <$> rolled.shown.mapM Roll.reroll := by
  rw [Pool.roll, mapM_roll, map_eq_pure_bind]

theorem saturatingSum_dice (bound : Die → Int) (rolled : PoolRoll) :
    saturatingSum (rolled.dice.groups.map fun dice => scaled dice.count (bound dice.die)) =
      saturatingSum (rolled.rolls.map fun roll => scaled roll.size (bound roll.die)) := by
  refine saturatingSum_filterMap ?_ ?_ rolled.rolls
  · intro roll dice found
    obtain ⟨size, die⟩ := Roll.dice?_eq_some_iff.1 found
    rw [size, die]
  · intro roll none
    have empty : roll.size = 0 :=
      List.isEmpty_iff_length_eq_zero.1 (Roll.dice?_eq_none_iff.1 none)
    rw [empty, scaled_zero]

theorem lowest_dice (rolled : PoolRoll) : rolled.dice.lowest = rolled.lowest :=
  saturatingSum_dice (fun die => die.lowest.value) rolled

theorem highest_dice (rolled : PoolRoll) : rolled.dice.highest = rolled.highest :=
  saturatingSum_dice (fun die => die.highest.value) rolled

/-- The sum of the sums is between the sums of their bounds, wherever any of them saturates. -/
theorem sum_within {rolled : PoolRoll}
    (within : ∀ roll ∈ rolled.rolls, roll.lowest ≤ roll.sum ∧ roll.sum ≤ roll.highest) :
    rolled.lowest ≤ rolled.sum ∧ rolled.sum ≤ rolled.highest := by
  have mono : ∀ {low high : Roll → Int}, (∀ roll ∈ rolled.rolls, low roll ≤ high roll) →
      saturatingSum (rolled.rolls.map low) ≤ saturatingSum (rolled.rolls.map high) := by
    intro low high le
    apply saturatingSum_mono
    rw [List.forall₂_map_left_iff, List.forall₂_map_right_iff, List.forall₂_same]
    exact le
  exact ⟨mono fun roll member => (within roll member).1, mono fun roll member => (within roll member).2⟩

theorem dice_of_forall₂ {groups : List Dice} {rolls : List Roll}
    (thrown : List.Forall₂ (fun dice roll => roll.die = dice.die ∧ roll.size = dice.count ∧
      ∀ face ∈ roll.faces, face ∈ dice.die.faces) groups rolls) :
    dice ⟨rolls⟩ = ⟨groups⟩ := by
  unfold dice
  congr 1
  induction thrown with
  | nil => rfl
  | cons thrown _ ih =>
    obtain ⟨die, size, _⟩ := thrown
    rw [List.filterMap_cons_some (Roll.dice?_eq_some_iff.2 ⟨size, die⟩), ih]

/-- What a pool shows tells the pool again, with its bounds. What any rolls of a pool show tells of
the dice that would show as many faces again: one group for each roll with faces, which have the
bounds of the rolls and are thrown as those rolls are thrown again. The sum of the rolls is between
those bounds. -/
theorem dice_reconstruct {σ : Type} [Source σ] (source : σ) :
    (∀ pool : Pool,
      let rolled := (pool.roll.run source).value
      rolled.dice = pool ∧ rolled.lowest = pool.lowest ∧ rolled.highest = pool.highest) ∧
    ∀ rolled : PoolRoll,
      let again := (rolled.shown.mapM Roll.reroll).run source
      rolled.dice.groups.map (fun dice => (dice.count, dice.die)) =
        rolled.shown.map (fun roll => (roll.size, roll.die)) ∧
      rolled.dice.lowest = rolled.lowest ∧ rolled.dice.highest = rolled.highest ∧
      rolled.dice.roll.run source = { again with value := ⟨again.value⟩ } ∧
      ((∀ roll ∈ rolled.rolls,
          (∀ face ∈ roll.faces, face ∈ roll.die.faces) ∧ (roll.size : Int) ≤ maxValue) →
        rolled.lowest ≤ rolled.sum ∧ rolled.sum ≤ rolled.highest) := by
  constructor
  · intro pool rolled
    have same : rolled.dice = pool := dice_of_forall₂ (pool.forall₂_roll source)
    exact ⟨same, by rw [← lowest_dice, same], by rw [← highest_dice, same]⟩
  · intro rolled again
    refine ⟨rolled.groups_dice, rolled.lowest_dice, rolled.highest_dice, ?_, ?_⟩
    · rw [roll_dice, Rolling.run_map]
    · intro sound
      apply sum_within
      intro roll member
      obtain ⟨shown, within⟩ := sound roll member
      exact (Roll.Sound.of_faces shown).bounds within

theorem dice_reconstruct_extremes :
    let low : Face := ⟨minValue, "low"⟩
    let high : Face := ⟨maxValue, "high"⟩
    let die : Die := ⟨[low, high], by decide⟩
    let rolled : PoolRoll := ⟨[⟨die, [low, low, high]⟩, ⟨die, []⟩, ⟨die, [high, high]⟩]⟩
    rolled.dice.groups.map Dice.count = [3, 2] ∧ rolled.rolls.map Roll.sum = [-1, 0, maxValue] ∧
      rolled.sum = maxValue - 1 ∧ rolled.lowest ≤ rolled.sum ∧ rolled.sum ≤ rolled.highest ∧
      ((rolled.dice.roll.run (Scripted.ofList [0, 1])).value.rolls.map Roll.labels =
        [["low", "high", "low"], ["high", "low"]]) := by
  intro low high die rolled
  obtain ⟨_, others⟩ := dice_reconstruct (Scripted.ofList [0, 1])
  obtain ⟨_, _, _, again, bounds⟩ := others rolled
  obtain ⟨below, above⟩ := bounds (by decide)
  exact ⟨by decide, by decide, by decide, below, above, by rw [again]; decide⟩

end PoolRoll

end Tabletop
