import Tabletop.Proofs.Saturation
import Tabletop.Proofs.Selections

/-! Sums of the same faces in different orders.

A sum saturates after each value, and what it loses there it does not get back. So the order
matters where some values take it to an end of the range and others bring it back. It is
least if all gains come first and greatest if all losses do, as they do in order of rank. Only
where these two agree is every sum the exact one, brought into the range once. -/

set_option autoImplicit false

namespace Tabletop

def gains (values : List Int) : Int := (values.filter (0 ≤ ·)).sum

def losses (values : List Int) : Int := (values.filter (· < 0)).sum

def gainsFirst (values : List Int) : Int := saturate (saturate (gains values) + losses values)

def lossesFirst (values : List Int) : Int := saturate (saturate (losses values) + gains values)

/-- Whether no order of the values can saturate and come back: there are gains or losses only, or
neither of them leave the range by themselves. -/
def Steady (values : List Int) : Prop :=
  gains values = 0 ∨ losses values = 0 ∨ minValue ≤ losses values ∧ gains values ≤ maxValue

section
variable {values others : List Int} {total : Int}

theorem gains_cons (value : Int) (rest : List Int) :
    gains (value :: rest) = max value 0 + gains rest := by
  by_cases up : 0 ≤ value
  · simp [gains, up]
  · have least : max value 0 = 0 := by omega
    simp [gains, up, least]

theorem losses_cons (value : Int) (rest : List Int) :
    losses (value :: rest) = min value 0 + losses rest := by
  by_cases down : value < 0
  · have least : min value 0 = value := by omega
    simp [losses, down, least]
  · have least : min value 0 = 0 := by omega
    simp [losses, down, least]

theorem gains_nonneg (values : List Int) : 0 ≤ gains values := by
  induction values with
  | nil => exact Int.le_refl 0
  | cons value rest ih =>
    rw [gains_cons]
    omega

theorem losses_nonpos (values : List Int) : losses values ≤ 0 := by
  induction values with
  | nil => exact Int.le_refl 0
  | cons value rest ih =>
    rw [losses_cons]
    omega

theorem gains_add_losses (values : List Int) : gains values + losses values = values.sum := by
  induction values with
  | nil => rfl
  | cons value rest ih =>
    rw [gains_cons, losses_cons, List.sum_cons, ← ih]
    omega

theorem gains_perm (perm : values.Perm others) : gains values = gains others :=
  (perm.filter _).sum_eq

theorem losses_perm (perm : values.Perm others) : losses values = losses others :=
  (perm.filter _).sum_eq

/-- A gain made early may be cut off at the top, and one made late is not. -/
theorem gain_early_le {gain : Int} (below : minValue ≤ total) (up : 0 ≤ gain) (loss : Int) :
    saturate (saturate (total + gain) + loss) ≤ saturate (total + loss) + gain := by
  simp only [saturate, clamp, minValue, maxValue] at below ⊢
  omega

theorem le_loss_early {loss : Int} (above : total ≤ maxValue) (down : loss ≤ 0) (gain : Int) :
    saturate (total + gain) + loss ≤ saturate (saturate (total + loss) + gain) := by
  simp only [saturate, clamp, minValue, maxValue] at above ⊢
  omega

theorem foldl_saturatingAdd_within (values : List Int) (below : minValue ≤ total)
    (above : total ≤ maxValue) :
    saturate (saturate (total + gains values) + losses values) ≤ values.foldl saturatingAdd total ∧
      values.foldl saturatingAdd total ≤
        saturate (saturate (total + losses values) + gains values) := by
  induction values generalizing total with
  | nil => simp [gains, losses, saturate_of_mem below above]
  | cons value rest ih =>
    obtain ⟨lower, upper⟩ :=
      ih (minValue_le_saturate (total + value)) (saturate_le_maxValue (total + value))
    rw [List.foldl_cons, saturatingAdd, gains_cons, losses_cons]
    rcases Int.le_total 0 value with up | down
    · rw [Int.max_eq_left up, Int.min_eq_right up, Int.zero_add]
      constructor
      · rw [saturate_add_gain (by omega) (gains_nonneg rest), Int.add_assoc] at lower
        exact lower
      · have early := Int.add_le_add_right (gain_early_le below up (losses rest)) (gains rest)
        rw [Int.add_assoc] at early
        exact Int.le_trans upper (saturate_mono early)
    · rw [Int.max_eq_right down, Int.min_eq_left down, Int.zero_add]
      constructor
      · have early := Int.add_le_add_right (le_loss_early above down (gains rest)) (losses rest)
        rw [Int.add_assoc] at early
        exact Int.le_trans (saturate_mono early) lower
      · rw [saturate_add_loss (by omega) (losses_nonpos rest), Int.add_assoc] at upper
        exact upper

theorem saturatingSum_append (first : OneWay values) (second : OneWay others) :
    saturatingSum (values ++ others) = saturate (saturate values.sum + others.sum) := by
  rw [saturatingSum, List.foldl_append, ← saturatingSum, first.saturatingSum,
    second.foldl_saturatingAdd (minValue_le_saturate _) (saturate_le_maxValue _)]

theorem oneWay_gains (values : List Int) : OneWay (values.filter (0 ≤ ·)) :=
  .inl fun _ member => of_decide_eq_true (List.mem_filter.1 member).2

theorem oneWay_losses (values : List Int) : OneWay (values.filter (· < 0)) :=
  .inr fun _ member => Int.le_of_lt (of_decide_eq_true (List.mem_filter.1 member).2)

theorem losses_append_gains_of_ascending (ascending : values.Pairwise (· ≤ ·)) :
    values.filter (· < 0) ++ values.filter (0 ≤ ·) = values := by
  induction values with
  | nil => rfl
  | cons value rest ih =>
    obtain ⟨least, later⟩ := List.pairwise_cons.1 ascending
    by_cases down : value < 0
    · rw [List.filter_cons_of_pos (by simpa using down),
        List.filter_cons_of_neg (by simpa using down), List.cons_append, ih later]
    · have up : ∀ other ∈ value :: rest, 0 ≤ other := by
        intro other member
        rcases List.mem_cons.1 member with rfl | behind
        · omega
        · have le := least other behind
          omega
      rw [List.filter_eq_nil_iff.2 (by simpa using up), List.filter_eq_self.2 (by simpa using up),
        List.nil_append]

theorem saturatingSum_of_ascending (ascending : values.Pairwise (· ≤ ·)) :
    saturatingSum values = lossesFirst values := by
  have sum := saturatingSum_append (oneWay_losses values) (oneWay_gains values)
  rwa [losses_append_gains_of_ascending ascending] at sum

theorem gainsFirst_eq_lossesFirst_iff : gainsFirst values = lossesFirst values ↔ Steady values := by
  have up := gains_nonneg values
  have down := losses_nonpos values
  simp only [gainsFirst, lossesFirst, Steady, saturate, clamp, minValue, maxValue]
  omega

theorem saturate_sum_within (values : List Int) :
    gainsFirst values ≤ saturate values.sum ∧ saturate values.sum ≤ lossesFirst values := by
  have up := gains_nonneg values
  have down := losses_nonpos values
  rw [← gains_add_losses]
  simp only [gainsFirst, lossesFirst, saturate, clamp, minValue, maxValue]
  omega

end

namespace Roll

variable {roll other : Roll}

structure Reorders (roll other : Roll) : Prop where
  die : other.die = roll.die
  faces : other.faces.Perm roll.faces

theorem Reorders.sum_within (reorders : roll.Reorders other) :
    gainsFirst roll.values ≤ other.sum ∧ other.sum ≤ lossesFirst roll.values := by
  have perm : other.values.Perm roll.values := reorders.faces.map Face.value
  have zero : minValue ≤ 0 ∧ 0 ≤ maxValue := by decide
  have within := foldl_saturatingAdd_within other.values zero.1 zero.2
  rw [Int.zero_add, Int.zero_add, gains_perm perm, losses_perm perm] at within
  exact within

theorem exists_gainsFirst (roll : Roll) :
    ∃ other, roll.Reorders other ∧ other.sum = gainsFirst roll.values := by
  have opposite : (fun face : Face => !decide (0 ≤ face.value)) =
      fun face : Face => decide (face.value < 0) := by
    funext face
    rw [← decide_not, decide_eq_decide]
    exact Int.not_le
  let order := roll.faces.filter (0 ≤ ·.value) ++ roll.faces.filter (·.value < 0)
  have perm : order.Perm roll.faces := by
    have parts := List.filter_append_perm (fun face : Face => decide (0 ≤ face.value)) roll.faces
    rwa [opposite] at parts
  refine ⟨{ roll with faces := order }, ⟨rfl, perm⟩, ?_⟩
  rw [gainsFirst, gains, losses, ← saturatingSum_append (oneWay_gains _) (oneWay_losses _), values,
    List.filter_map, List.filter_map, ← List.map_append]
  rfl

theorem sum_keep_size (roll : Roll) (side : Side) :
    ∃ kept, roll.keep roll.size side = .ok kept ∧ roll.Reorders kept ∧
      kept.sum = lossesFirst roll.values := by
  refine ⟨_, roll.keep_size side, ⟨rfl, roll.ranking.perm⟩, ?_⟩
  have sum := saturatingSum_of_ascending roll.values_ranked_ascending
  rwa [lossesFirst, gains_perm roll.values_ranked_perm, losses_perm roll.values_ranked_perm] at sum

theorem Reorders.sum_of_steady (reorders : roll.Reorders other) (steady : Steady roll.values) :
    other.sum = saturate roll.values.sum := by
  have same := gainsFirst_eq_lossesFirst_iff.2 steady
  have exact_sum := saturate_sum_within roll.values
  have sum := reorders.sum_within
  omega

/-- Whatever order the faces are in, the sum is between that with the gains first and that with the
losses first. Some order reaches the one, and the faces kept from either side, all of them, reach
the other. Just where the values are steady, every order has the exact sum, brought into the range,
and just there every order has the sum of the roll. -/
theorem sum_of_orders (roll : Roll) (side : Side) :
    (∀ other, roll.Reorders other →
      gainsFirst roll.values ≤ other.sum ∧ other.sum ≤ lossesFirst roll.values) ∧
    (∃ other, roll.Reorders other ∧ other.sum = gainsFirst roll.values) ∧
    (∃ kept, roll.keep roll.size side = .ok kept ∧ roll.Reorders kept ∧
      kept.sum = lossesFirst roll.values) ∧
    (Steady roll.values ↔ ∀ other, roll.Reorders other → other.sum = saturate roll.values.sum) ∧
    (Steady roll.values ↔ ∀ other, roll.Reorders other → other.sum = roll.sum) := by
  obtain ⟨least, least_order, least_sum⟩ := roll.exists_gainsFirst
  obtain ⟨greatest, kept, greatest_order, greatest_sum⟩ := roll.sum_keep_size side
  have steady_of_same {sum : Int} (same : ∀ other, roll.Reorders other → other.sum = sum) :
      Steady roll.values := by
    rw [← gainsFirst_eq_lossesFirst_iff, ← least_sum, ← greatest_sum, same least least_order,
      same greatest greatest_order]
  refine ⟨fun other reorders => reorders.sum_within, ⟨least, least_order, least_sum⟩,
    ⟨greatest, kept, greatest_order, greatest_sum⟩, ⟨?_, steady_of_same⟩, ⟨?_, steady_of_same⟩⟩
  · exact fun steady other reorders => reorders.sum_of_steady steady
  · intro steady other reorders
    have own : roll.Reorders roll := ⟨rfl, .refl _⟩
    rw [reorders.sum_of_steady steady, own.sum_of_steady steady]

theorem sum_of_orders_beyond :
    let high : Face := ⟨maxValue, "high"⟩
    let die : Die := ⟨[high, ⟨1, "+"⟩, ⟨-1, "-"⟩], by decide⟩
    let roll : Roll := ⟨die, [⟨-1, "-"⟩, high, ⟨1, "+"⟩]⟩
    let other : Roll := ⟨die, [high, ⟨1, "+"⟩, ⟨-1, "-"⟩]⟩
    roll.Reorders other ∧ other.sum = maxValue - 1 ∧ other.sum ≤ lossesFirst roll.values ∧
      (∃ kept, roll.keep 3 .high = .ok kept ∧ kept.sum = maxValue) ∧ ¬Steady roll.values := by
  intro high die roll other
  have reorders : roll.Reorders other := ⟨rfl, by decide⟩
  obtain ⟨within, _, ⟨kept, keeps, _, sum⟩, steady, _⟩ := sum_of_orders roll .high
  refine ⟨reorders, by decide, (within other reorders).2, ⟨kept, keeps, sum.trans (by decide)⟩, ?_⟩
  intro all
  have exact_sum := steady.1 all other reorders
  exact absurd exact_sum (by decide)

/-- A sum that has met an end of the range leaves it again, though the exact sum is there. Kept in
full, the same faces come to another sum. -/
theorem sum_ne_saturate_sum :
    let die : Die := ⟨[⟨maxValue, "high"⟩, ⟨1, "+"⟩, ⟨-1, "-"⟩], by decide⟩
    let roll : Roll := ⟨die, die.faces⟩
    roll.sum ≠ saturate roll.values.sum ∧
      ∃ kept, roll.keep roll.size .high = .ok kept ∧ kept.sum ≠ roll.sum := by
  intro die roll
  obtain ⟨kept, keeps, _, sum⟩ := roll.sum_keep_size .high
  refine ⟨by decide, kept, keeps, ?_⟩
  rw [sum]
  decide

end Roll

end Tabletop
