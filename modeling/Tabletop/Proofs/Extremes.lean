import Mathlib.Data.List.Sort
import Tabletop.Proofs.Ranking
import Tabletop.Proofs.Saturation

/-! The greatest and the least choice of some of the faces.

Ranked and laid beside each other, the lowest faces of a roll are one by one not above any
choice of as many faces, and the highest ones not below it. So no exact sum of a choice lies
outside theirs. Their own saturated sums keep that order, since they grow with each value. -/

set_option autoImplicit false

namespace Tabletop

section
variable {α : Type} {before : α → α → Prop} {all chosen : List α}

theorem forall₂_take (refl : ∀ item, before item item) (ordered : all.Pairwise before)
    (part : chosen.Sublist all) : List.Forall₂ before (all.take chosen.length) chosen := by
  induction all generalizing chosen with
  | nil =>
    rw [List.sublist_nil.1 part]
    exact .nil
  | cons first rest ih =>
    obtain ⟨least, later⟩ := List.pairwise_cons.1 ordered
    cases chosen with
    | nil => exact .nil
    | cons taken others =>
      have least_taken : before first taken := by
        rcases List.mem_cons.1 (part.subset List.mem_cons_self) with rfl | member
        · exact refl taken
        · exact least taken member
      exact .cons least_taken (ih later part.tail)

theorem forall₂_drop (refl : ∀ item, before item item) (ordered : all.Pairwise before)
    (part : chosen.Sublist all) :
    List.Forall₂ before chosen (all.drop (all.length - chosen.length)) := by
  have backward : List.Forall₂ (flip before) (all.reverse.take chosen.reverse.length)
      chosen.reverse :=
    forall₂_take refl (List.pairwise_reverse.2 ordered) (List.reverse_sublist.2 part)
  rw [List.take_reverse, List.length_reverse, List.forall₂_reverse_iff] at backward
  exact backward.flip

end

namespace Roll

variable {roll : Roll} {count : Nat} {chosen : List Face}

/-- A choice of `count` of the faces, none taken more often than it fell. -/
structure Choice (roll : Roll) (count : Nat) (chosen : List Face) : Prop where
  part : chosen.Subperm roll.faces
  length : chosen.length = count

theorem Choice.of_ranked (part : chosen.Sublist roll.ranked) (length : chosen.length = count) :
    roll.Choice count chosen :=
  ⟨part.subperm.trans roll.ranking.perm.subperm, length⟩

theorem Choice.exists_sublist (choice : roll.Choice count chosen) :
    ∃ values : List Int, values.Perm (chosen.map Face.value) ∧
      values.Sublist (roll.ranked.map Face.value) := by
  obtain ⟨order, perm, sub⟩ := choice.part
  let ranked := (Roll.mk roll.die chosen).ranked.map Face.value
  have same : ranked.Perm (chosen.map Face.value) := values_ranked_perm _
  have of_roll : (order.map Face.value).Subperm (roll.ranked.map Face.value) :=
    (sub.map Face.value).subperm.trans roll.values_ranked_perm.symm.subperm
  refine ⟨ranked, same, ?_⟩
  apply List.sublist_of_subperm_of_pairwise _ (values_ranked_ascending _)
    (values_ranked_ascending _)
  exact (same.trans (perm.map Face.value).symm).subperm.trans of_roll

theorem Choice.sum_within (choice : roll.Choice count chosen) :
    ((roll.ranked.take count).map Face.value).sum ≤ (chosen.map Face.value).sum ∧
      (chosen.map Face.value).sum ≤
        ((roll.ranked.drop (roll.size - count)).map Face.value).sum := by
  obtain ⟨values, perm, sub⟩ := choice.exists_sublist
  have length : values.length = count := by
    rw [perm.length_eq, List.length_map, choice.length]
  have lower := forall₂_take Int.le_refl roll.values_ranked_ascending sub
  have upper := forall₂_drop Int.le_refl roll.values_ranked_ascending sub
  rw [length, ← List.map_take] at lower
  rw [length, List.length_map, length_ranked, ← List.map_drop] at upper
  rw [← perm.sum_eq]
  exact ⟨lower.sum_le_sum, upper.sum_le_sum⟩

/-- What is kept from the two sides are choices of the faces, and every other choice of as many
has an exact sum between theirs. The saturated sums of the two are in the same order. -/
theorem keep_extremal (roll : Roll) (count : Nat) (enough : count ≤ roll.size) :
    ∃ least greatest : Roll,
      roll.keep count .low = .ok least ∧ roll.keep count .high = .ok greatest ∧
      roll.Choice count least.faces ∧ roll.Choice count greatest.faces ∧
      (∀ chosen : List Face, roll.Choice count chosen →
        least.values.sum ≤ (chosen.map Face.value).sum ∧
        (chosen.map Face.value).sum ≤ greatest.values.sum) ∧
      least.sum ≤ greatest.sum := by
  have length : (roll.ranked.take count).length = count := by
    rw [List.length_take, length_ranked, Nat.min_eq_left enough]
  refine ⟨⟨roll.die, roll.ranked.take count⟩, ⟨roll.die, roll.ranked.drop (roll.size - count)⟩,
    select_of_le enough _, select_of_le enough _, ?_, ?_, ?_, ?_⟩
  · exact .of_ranked (List.take_sublist _ _) length
  · refine .of_ranked (List.drop_sublist _ _) ?_
    rw [List.length_drop, length_ranked, Nat.sub_sub_self enough]
  · exact fun chosen choice => choice.sum_within
  · -- The lowest values are a sublist too, so the highest ones are not below them.
    have apart := forall₂_drop Int.le_refl roll.values_ranked_ascending
      ((List.take_sublist count roll.ranked).map Face.value)
    rw [List.length_map, List.length_map, length, length_ranked, ← List.map_drop] at apart
    exact saturatingSum_mono apart

theorem keep_extremal_beyond :
    let low : Face := ⟨minValue, "low"⟩
    let high : Face := ⟨maxValue, "high"⟩
    let die : Die := ⟨[low, high], by decide⟩
    let roll : Roll := ⟨die, [high, low, low, high]⟩
    ∃ least greatest : Roll,
      roll.keep 2 .low = .ok least ∧ roll.keep 2 .high = .ok greatest ∧
      least.values.sum ≤ -1 ∧ -1 ≤ greatest.values.sum ∧
      least.sum = minValue ∧ greatest.sum = maxValue ∧ least.sum ≤ greatest.sum := by
  intro low high die roll
  have ranked : roll.ranked = [low, low, high, high] := by
    simp [roll, low, high, Roll.ranked, List.mergeSort, minValue, maxValue]
  have lowest : roll.keep 2 .low = .ok ⟨die, [low, low]⟩ := by
    rw [keep, select, ranked]
    rfl
  have highest : roll.keep 2 .high = .ok ⟨die, [high, high]⟩ := by
    rw [keep, select, ranked]
    rfl
  obtain ⟨least, greatest, lows, highs, _, _, within, sums⟩ :=
    keep_extremal roll 2 (by decide)
  cases lowest.symm.trans lows
  cases highest.symm.trans highs
  have choice : roll.Choice 2 [high, low] :=
    ⟨(List.sublist_append_left [high, low] [low, high]).subperm, rfl⟩
  obtain ⟨below, above⟩ := within _ choice
  exact ⟨_, _, lows, highs, below, above, by decide, by decide, sums⟩

end Roll

end Tabletop
