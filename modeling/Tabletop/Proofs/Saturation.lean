import Mathlib.Algebra.Order.BigOperators.Group.List
import Mathlib.Algebra.Ring.Int.Defs
import Mathlib.Data.List.Forall2
import Tabletop.Saturation

/-! Saturating sums between their bounds.

A sum that reaches an end of the range and comes back from it is not the exact sum moved
into the range. It still grows with each of its values, so it lies between the sums of
equal values, and those keep one direction and saturate like the exact product. -/

set_option autoImplicit false

namespace Tabletop

theorem saturatingAdd_mono {first second low high : Int} (starts : first ≤ second)
    (values : low ≤ high) : saturatingAdd first low ≤ saturatingAdd second high :=
  saturate_mono (Int.add_le_add starts values)

theorem foldl_saturatingAdd_mono {lows highs : List Int} {first second : Int}
    (values : List.Forall₂ (· ≤ ·) lows highs) (starts : first ≤ second) :
    lows.foldl saturatingAdd first ≤ highs.foldl saturatingAdd second := by
  induction values generalizing first second with
  | nil => exact starts
  | cons least _ ih => exact ih (saturatingAdd_mono starts least)

theorem saturatingSum_mono {lows highs : List Int} (values : List.Forall₂ (· ≤ ·) lows highs) :
    saturatingSum lows ≤ saturatingSum highs :=
  foldl_saturatingAdd_mono values (Int.le_refl 0)

/-- What is cut off at the top would be cut off after a gain as well. -/
theorem saturate_add_gain {total gain : Int} (below : minValue ≤ total) (up : 0 ≤ gain) :
    saturate (saturate total + gain) = saturate (total + gain) := by
  simp only [saturate, clamp, minValue, maxValue] at below ⊢
  omega

theorem saturate_add_loss {total loss : Int} (above : total ≤ maxValue) (down : loss ≤ 0) :
    saturate (saturate total + loss) = saturate (total + loss) := by
  simp only [saturate, clamp, minValue, maxValue] at above ⊢
  omega

/-- Whether all values point one way: none is negative, or none is positive. -/
def OneWay (values : List Int) : Prop :=
  (∀ value ∈ values, 0 ≤ value) ∨ ∀ value ∈ values, value ≤ 0

theorem OneWay.tail {value : Int} {rest : List Int} (way : OneWay (value :: rest)) : OneWay rest :=
  way.imp List.forall_mem_of_forall_mem_cons List.forall_mem_of_forall_mem_cons

theorem OneWay.signs {value : Int} {rest : List Int} (way : OneWay (value :: rest)) :
    0 ≤ value ∧ 0 ≤ rest.sum ∨ value ≤ 0 ∧ rest.sum ≤ 0 := by
  rcases way with up | down
  · obtain ⟨first, later⟩ := List.forall_mem_cons.1 up
    exact .inl ⟨first, List.sum_nonneg later⟩
  · obtain ⟨first, later⟩ := List.forall_mem_cons.1 down
    exact .inr ⟨first, by simpa using List.sum_le_card_nsmul rest 0 later⟩

theorem oneWay_replicate (count : Nat) (value : Int) : OneWay (List.replicate count value) := by
  rcases Int.le_total 0 value with up | down
  · exact .inl fun other member => List.eq_of_mem_replicate member ▸ up
  · exact .inr fun other member => List.eq_of_mem_replicate member ▸ down

theorem OneWay.foldl_saturatingAdd {values : List Int} {total : Int} (way : OneWay values)
    (below : minValue ≤ total) (above : total ≤ maxValue) :
    values.foldl saturatingAdd total = saturate (total + values.sum) := by
  induction values generalizing total with
  | nil => rw [List.foldl_nil, List.sum_nil, Int.add_zero, saturate_of_mem below above]
  | cons value rest ih =>
    rw [List.foldl_cons, List.sum_cons, saturatingAdd,
      ih way.tail (minValue_le_saturate _) (saturate_le_maxValue _), ← Int.add_assoc]
    rcases way.signs with ⟨up, later⟩ | ⟨down, later⟩
    · exact saturate_add_gain (by omega) later
    · exact saturate_add_loss (by omega) later

theorem OneWay.saturatingSum {values : List Int} (way : OneWay values) :
    saturatingSum values = saturate values.sum := by
  rw [Tabletop.saturatingSum, way.foldl_saturatingAdd (by decide) (by decide), Int.zero_add]

theorem saturatingSum_replicate (count : Nat) (value : Int) :
    saturatingSum (List.replicate count value) = saturate (count * value) := by
  rw [(oneWay_replicate count value).saturatingSum, List.sum_replicate_int]

theorem scaled_eq_saturate {count : Nat} (within : (count : Int) ≤ maxValue) (value : Int) :
    scaled count value = saturate (count * value) := by
  rw [scaled, Int.min_eq_left within]

section
variable {factor value : Int}

theorem saturate_mul_of_pos (great : maxValue ≤ factor) (up : 1 ≤ value) :
    saturate (factor * value) = maxValue := by
  have factor_nonneg : 0 ≤ factor := Int.le_trans (by decide) great
  have product : factor * 1 ≤ factor * value := Int.mul_le_mul_of_nonneg_left up factor_nonneg
  simp only [saturate, clamp, minValue, maxValue] at great ⊢
  omega

/-- Twice the greatest value, taken negative, is below the least one, though the greatest is not. -/
theorem saturate_mul_of_neg (great : maxValue ≤ factor) (down : value ≤ -2) :
    saturate (factor * value) = minValue := by
  have factor_nonneg : 0 ≤ factor := Int.le_trans (by decide) great
  have product : factor * value ≤ factor * -2 := Int.mul_le_mul_of_nonneg_left down factor_nonneg
  simp only [saturate, clamp, minValue, maxValue] at great ⊢
  omega

end

/-- A product is the exact one, saturated once, but for minus one times a count that is cut: the
negative of the greatest value is not the least one. -/
theorem scaled_eq (count : Nat) (value : Int) :
    scaled count value =
      if maxValue < count ∧ value = -1 then minValue + 1 else saturate (count * value) := by
  by_cases within : (count : Int) ≤ maxValue
  · rw [scaled_eq_saturate within, if_neg fun cut => Int.not_lt.2 within cut.1]
  · have great : maxValue ≤ (count : Int) := Int.le_of_not_le within
    rw [scaled, Int.min_eq_right great]
    by_cases minus_one : value = -1
    · rw [if_pos ⟨Int.not_le.1 within, minus_one⟩, minus_one]
      rfl
    · rw [if_neg fun cut => minus_one cut.2]
      rcases Int.lt_trichotomy value 0 with down | rfl | up
      · have below : value ≤ -2 := by omega
        rw [saturate_mul_of_neg (Int.le_refl _) below, saturate_mul_of_neg great below]
      · rw [Int.mul_zero, Int.mul_zero]
      · rw [saturate_mul_of_pos (Int.le_refl _) up, saturate_mul_of_pos great up]

theorem scaled_mono {low high : Int} (count : Nat) (values : low ≤ high) :
    scaled count low ≤ scaled count high := by
  have factor : 0 ≤ min (count : Int) maxValue := by
    simp only [maxValue]
    omega
  exact saturate_mono (Int.mul_le_mul_of_nonneg_left values factor)

theorem forall₂_replicate {α β : Type} {relation : α → β → Prop} {value : α} {others : List β}
    (related : ∀ other ∈ others, relation value other) :
    List.Forall₂ relation (List.replicate others.length value) others := by
  induction others with
  | nil => exact .nil
  | cons other rest ih =>
    obtain ⟨first, later⟩ := List.forall_mem_cons.1 related
    exact .cons first (ih later)

theorem scaled_le_saturatingSum {values : List Int} {low : Int}
    (within : (values.length : Int) ≤ maxValue) (bound : ∀ value ∈ values, low ≤ value) :
    scaled values.length low ≤ saturatingSum values := by
  rw [scaled_eq_saturate within, ← saturatingSum_replicate]
  exact saturatingSum_mono (forall₂_replicate bound)

theorem saturatingSum_le_scaled {values : List Int} {high : Int}
    (within : (values.length : Int) ≤ maxValue) (bound : ∀ value ∈ values, value ≤ high) :
    saturatingSum values ≤ scaled values.length high := by
  rw [scaled_eq_saturate within, ← saturatingSum_replicate]
  exact saturatingSum_mono (forall₂_replicate bound).flip

theorem clamp_saturatingAdd {low high : Int} (below : minValue ≤ low) (above : high ≤ maxValue)
    (first second : Int) :
    clamp low high (saturatingAdd first second) = clamp low high (first + second) := by
  simp only [saturatingAdd, saturate, clamp] at *
  omega

end Tabletop
