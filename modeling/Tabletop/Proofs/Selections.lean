import Tabletop.Proofs.Ranking

/-! Selections by rank made one after the other.

What a selection by rank leaves is the ranked faces, less some at the low end and some at the
high end. It is in order of rank already, so another selection only takes more off an end,
and what is left does not depend on the order in which the two ends were shortened. -/

set_option autoImplicit false

namespace Tabletop.Roll

variable {roll : Roll} {side : Side} {count : Nat}

theorem ranked_of_ascending (ascending : Ascending roll.faces) : roll.ranked = roll.faces :=
  roll.ranking.eq_of_ascending ascending

/-- The faces in order of rank, less the `low` lowest and the `high` highest of them. -/
def inner (roll : Roll) (low high : Nat) : Roll :=
  { roll with faces := (roll.ranked.drop low).take (roll.size - low - high) }

@[simp] theorem size_inner (roll : Roll) (low high : Nat) :
    (roll.inner low high).size = roll.size - low - high := by
  rw [size, inner, List.length_take, List.length_drop, length_ranked]
  omega

theorem ranked_inner (roll : Roll) (low high : Nat) :
    (roll.inner low high).ranked = (roll.inner low high).faces :=
  ranked_of_ascending <| roll.ranking.ascending.sublist <|
    (List.take_sublist _ _).trans (List.drop_sublist _ _)

theorem inner_inner (roll : Roll) (low high lower higher : Nat) :
    (roll.inner low high).inner lower higher = roll.inner (low + lower) (high + higher) := by
  have length : roll.size - low - high - lower - higher =
      roll.size - (low + lower) - (high + higher) := by
    omega
  have within : roll.size - (low + lower) - (high + higher) ≤ roll.size - low - high - lower := by
    omega
  rw [inner, ranked_inner, size_inner, length]
  simp only [inner, List.drop_take, List.drop_drop, List.take_take, Nat.min_eq_left within]

def without (roll : Roll) (count : Nat) : Side → Roll
  | .high => roll.inner 0 count
  | .low => roll.inner count 0

@[simp] theorem size_without (roll : Roll) (count : Nat) (side : Side) :
    (roll.without count side).size = roll.size - count := by
  cases side <;> simp [without]

theorem without_without (roll : Roll) (first second : Nat) (side : Side) :
    (roll.without first side).without second side = roll.without (first + second) side := by
  cases side <;> exact inner_inner roll _ _ _ _

theorem without_high_low (roll : Roll) (high low : Nat) :
    (roll.without high .high).without low .low = roll.inner low high := by
  simp only [without, inner_inner, Nat.zero_add, Nat.add_zero]

theorem without_low_high (roll : Roll) (low high : Nat) :
    (roll.without low .low).without high .high = roll.inner low high := by
  simp only [without, inner_inner, Nat.zero_add, Nat.add_zero]

theorem without_high (roll : Roll) (count : Nat) :
    roll.without count .high = { roll with faces := roll.ranked.take (roll.size - count) } := rfl

theorem without_low (roll : Roll) (count : Nat) :
    roll.without count .low = { roll with faces := roll.ranked.drop count } := by
  have length : (roll.ranked.drop count).length = roll.size - count := by simp
  rw [without, inner, Nat.sub_zero, ← length, List.take_length]

theorem drop_eq_without (enough : count ≤ roll.size) (side : Side) :
    roll.drop count side = .ok (roll.without count side) := by
  cases side with
  | high => exact select_of_le enough _
  | low =>
    rw [without_low]
    exact select_of_le enough _

theorem keep_eq_without (enough : count ≤ roll.size) (side : Side) :
    roll.keep count side = .ok (roll.without (roll.size - count) side.opposite) := by
  cases side with
  | high =>
    rw [Side.opposite, without_low]
    exact select_of_le enough _
  | low =>
    rw [Side.opposite, without_high, Nat.sub_sub_self enough]
    exact select_of_le enough _

theorem keep_size (roll : Roll) (side : Side) :
    roll.keep roll.size side = .ok { roll with faces := roll.ranked } := by
  rw [keep_eq_without (Nat.le_refl _), Nat.sub_self]
  cases side with
  | high => rw [Side.opposite, without_low, List.drop_zero]
  | low =>
    rw [Side.opposite, without_high, Nat.sub_zero, ← length_ranked, List.take_length]

theorem keep_keep {fewer : Nat} (le : fewer ≤ count) (enough : count ≤ roll.size)
    (side other : Side) :
    (roll.keep count side >>= (·.keep fewer other)) =
      .ok ((roll.without (roll.size - count) side.opposite).without (count - fewer)
        other.opposite) := by
  have size : (roll.without (roll.size - count) side.opposite).size = count := by
    rw [size_without, Nat.sub_sub_self enough]
  rw [keep_eq_without enough]
  refine (keep_eq_without (size.symm ▸ le) other).trans ?_
  rw [size]

theorem drop_drop {first second : Nat} (enough : first + second ≤ roll.size) (side other : Side) :
    (roll.drop first side >>= (·.drop second other)) =
      .ok ((roll.without first side).without second other) := by
  have rest : second ≤ (roll.without first side).size := by
    rw [size_without]
    omega
  rw [drop_eq_without (Nat.le_trans (Nat.le_add_right _ _) enough)]
  exact drop_eq_without rest other

theorem drop_without_of_lt {first second : Nat} (few : roll.size < first + second)
    (enough : first ≤ roll.size) (side : Side) :
    (roll.without first side).drop second side =
      .error (.countOutOfRange second (roll.size - first)) := by
  have less : (roll.without first side).size < second := by
    rw [size_without]
    omega
  rw [← size_without roll first side]
  cases side <;> exact select_of_lt less _

/-- A selection by rank from what another one has left is a selection from the roll itself. To keep
fewer faces after some were kept at the same side is to keep the fewer at once, and to drop more of
them is to drop all at once, or to fail if too few are left. What is left between the two ends is the
same whichever end was dropped first, and whether the ends were dropped or the others kept. -/
theorem keep_drop_compose (roll : Roll) (side : Side) :
    (∀ fewer count : Nat, fewer ≤ count → count ≤ roll.size → ∃ kept,
      (roll.keep count side >>= (·.keep fewer side)) = .ok kept ∧
      roll.keep fewer side = .ok kept) ∧
    (∀ first second : Nat, first + second ≤ roll.size → ∃ left,
      (roll.drop first side >>= (·.drop second side)) = .ok left ∧
      roll.drop (first + second) side = .ok left) ∧
    (∀ first second : Nat, first ≤ roll.size → roll.size < first + second → ∃ left,
      roll.drop first side = .ok left ∧
      left.drop second side = .error (.countOutOfRange second (roll.size - first))) ∧
    (∀ high low : Nat, high + low ≤ roll.size → ∃ left,
      (roll.drop high .high >>= (·.drop low .low)) = .ok left ∧
      (roll.drop low .low >>= (·.drop high .high)) = .ok left ∧
      (roll.keep (roll.size - high) .low >>= (·.keep (roll.size - high - low) .high)) = .ok left) := by
  refine ⟨?_, ?_, ?_, ?_⟩
  · intro fewer count le enough
    have total : roll.size - count + (count - fewer) = roll.size - fewer := by omega
    refine ⟨_, keep_keep le enough side side, ?_⟩
    rw [without_without, total]
    exact keep_eq_without (Nat.le_trans le enough) side
  · intro first second enough
    refine ⟨_, drop_drop enough side side, ?_⟩
    rw [without_without]
    exact drop_eq_without enough side
  · intro first second enough few
    exact ⟨_, drop_eq_without enough side, drop_without_of_lt few enough side⟩
  · intro high low enough
    refine ⟨roll.inner low high, ?_, ?_, ?_⟩
    · rw [drop_drop enough, without_high_low]
    · rw [drop_drop (Nat.add_comm high low ▸ enough), without_low_high]
    · have all : roll.size - (roll.size - high) = high := by omega
      have rest : roll.size - high - (roll.size - high - low) = low := by omega
      rw [keep_keep (Nat.sub_le _ _) (Nat.sub_le _ _), all, rest]
      exact congrArg _ (without_high_low roll high low)

theorem keep_drop_compose_ties :
    let die : Die := ⟨[⟨1, "a"⟩, ⟨1, "b"⟩, ⟨2, "c"⟩, ⟨2, "d"⟩], by decide⟩
    let roll : Roll := ⟨die, [⟨2, "d"⟩, ⟨1, "b"⟩, ⟨2, "c"⟩, ⟨1, "a"⟩]⟩
    (∃ kept, (roll.keep 3 .high >>= (·.keep 1 .high)) = .ok kept ∧ roll.keep 1 .high = .ok kept) ∧
    (∃ left, (roll.drop 1 .high >>= (·.drop 2 .high)) = .ok left ∧ roll.drop 3 .high = .ok left) ∧
    (∃ left, roll.drop 3 .high = .ok left ∧ left.drop 2 .high = .error (.countOutOfRange 2 1)) ∧
    (∃ left, left.labels = ["a", "d"] ∧ (roll.drop 1 .high >>= (·.drop 1 .low)) = .ok left ∧
      (roll.drop 1 .low >>= (·.drop 1 .high)) = .ok left ∧
      (roll.keep 3 .low >>= (·.keep 2 .high)) = .ok left) := by
  intro die roll
  obtain ⟨kept, dropped, failed, middle⟩ := keep_drop_compose roll .high
  obtain ⟨left, high_low, low_high, both⟩ := middle 1 1 (by decide)
  refine ⟨kept 1 3 (by decide) (by decide), dropped 1 2 (by decide),
    failed 3 2 (by decide) (by decide), left, ?_, high_low, low_high, both⟩
  have ranked : roll.ranked = [⟨1, "b"⟩, ⟨1, "a"⟩, ⟨2, "d"⟩, ⟨2, "c"⟩] := by
    simp [roll, Roll.ranked, List.mergeSort]
  cases (drop_drop (by decide : 1 + 1 ≤ roll.size) .high .low).symm.trans high_low
  rw [without_high_low, inner, ranked]
  rfl

end Tabletop.Roll
