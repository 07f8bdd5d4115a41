import Tabletop.Proofs.Calls
import Tabletop.Saturation
import Tabletop.Source.Seeded

/-! The range of the answers that are made from words.

The high half of a product is below the bound, but the carry adds to it. It is only left open
when the low half is so great that the high half cannot be the last position, so the sum stays
below the bound, whatever the words are. -/

set_option autoImplicit false

namespace Tabletop.Words

/-- The position below `below` that two words stand for. The second one only settles a carry. -/
def position (below first second : Nat) : Nat :=
  let values := wordValues below
  let carried := if carryOpen values below first then carry values below first second else 0
  first * below / values + carried

theorem carry_le_one (values below first second : Nat) : carry values below first second ≤ 1 := by
  unfold carry
  split <;> decide

section
variable {values below first : Nat}

theorem high_lt (positive : 0 < below) (word : first < values) :
    first * below / values < below :=
  Nat.div_lt_of_lt_mul (Nat.mul_lt_mul_of_pos_right word positive)

/-- Where the carry is left open, the high half is not the last position. -/
theorem high_lt_of_carryOpen (word : first < values) (within : below ≤ values)
    (undecided : carryOpen values below first = true) : first * below / values + 1 < below := by
  have low : values - below < first * below % values := of_decide_eq_true undecided
  have halves := Nat.div_add_mod (first * below) values
  have product : first * below + below ≤ values * below := by
    rw [← Nat.succ_mul]
    exact Nat.mul_le_mul_right below word
  apply Nat.lt_of_mul_lt_mul_left (a := values)
  rw [Nat.mul_add, Nat.mul_one]
  omega

end

theorem wordValues_cases (below : Nat) :
    below < shortWord ∧ wordValues below = shortWord ∨ wordValues below = longWord := by
  rcases Nat.lt_or_ge below shortWord with short | long
  · exact .inl ⟨short, if_pos short⟩
  · exact .inr (if_neg (Nat.not_lt.2 long))

theorem le_wordValues {below : Nat} (counted : below ≤ maxCount) : below ≤ wordValues below := by
  rcases wordValues_cases below with ⟨short, values⟩ | values
  · rw [values]
    exact Nat.le_of_lt short
  · rw [values]
    exact Nat.le_succ_of_le counted

theorem position_lt {below first : Nat} (positive : 0 < below) (counted : below ≤ maxCount)
    (word : first < wordValues below) (second : Nat) : position below first second < below := by
  simp only [position]
  split
  · next undecided =>
    have last := high_lt_of_carryOpen word (le_wordValues counted) undecided
    have added := carry_le_one (wordValues below) below first second
    omega
  · exact high_lt positive word

theorem draw_lt (below : Nat) (source : Words) :
    (source.draw (wordValues below)).1 < wordValues below := by
  have low := (source.word source.place).toNat_lt
  have high := (source.word (source.place + 1)).toNat_lt
  rcases wordValues_cases below with ⟨_, values⟩ | values
  · rw [values]
    exact low
  · rw [values]
    change (_ + shortWord * _ : Nat) < longWord
    simp only [shortWord, longWord]
    omega

theorem index_eq_position (below : Nat) (source : Words) :
    (Source.index below source).1 =
      let first := source.draw (wordValues below)
      position below first.1 (first.2.draw (wordValues below)).1 := by
  change (index below source).1 = _
  simp only [index, position]
  split <;> rfl

theorem index_lt {below : Nat} (positive : 0 < below) (counted : below ≤ maxCount)
    (source : Words) : (Source.index below source).1 < below := by
  rw [index_eq_position]
  exact position_lt positive counted (draw_lt below source) _

theorem call_within {source : Words} {bounds : List Nat}
    (asked : ∀ below ∈ bounds, 0 < below ∧ below ≤ maxCount) :
    ∀ call ∈ Source.calls source bounds, call.answer < call.below ∧ call.place = call.answer := by
  intro call made
  obtain ⟨number, there⟩ := List.mem_iff_getElem?.1 made
  rw [Source.getElem?_calls] at there
  obtain ⟨below, asked_there, rfl⟩ := Option.map_eq_some_iff.1 there
  obtain ⟨positive, counted⟩ := asked below (List.mem_of_getElem? asked_there)
  have within := index_lt positive counted (Source.left source (bounds.take number))
  exact ⟨within, Nat.mod_eq_of_lt within⟩

/-- Whatever words are drawn, they stand for a position below the bound. So every call of a run that
asks for a choice is answered within the range asked for, from any words and from those of a seed,
and who draws has nothing to reduce. -/
theorem answers_within_range :
    (∀ below first second, 0 < below → below ≤ maxCount → first < wordValues below →
      position below first second < below) ∧
    (∀ below (source : Words), (Source.index below source).1 =
      let first := source.draw (wordValues below)
      position below first.1 (first.2.draw (wordValues below)).1) ∧
    (∀ (source : Words) bounds, (∀ below ∈ bounds, 0 < below ∧ below ≤ maxCount) →
      ∀ call ∈ Source.calls source bounds, call.answer < call.below ∧ call.place = call.answer) ∧
    ∀ seed bounds, (∀ below ∈ bounds, 0 < below ∧ below ≤ maxCount) →
      ∀ call ∈ Source.calls (ofSeed seed) bounds,
        call.answer < call.below ∧ call.place = call.answer :=
  ⟨fun _ _ second positive counted word => position_lt positive counted word second,
    index_eq_position, fun _ _ => call_within, fun _ _ => call_within⟩

theorem answers_within_range_carried :
    position 3 1431655765 4294967295 = 1 ∧ position 3 1431655765 4294967295 < 3 ∧
    ⟨18446744073709551615, 14246666336075071429⟩ ∈
      Source.calls (ofSeed 42) [6, 4294967296, 18446744073709551615] ∧
    14246666336075071429 < 18446744073709551615 ∧
    ⟨5000000000, 4999999999⟩ ∈ Source.calls (⟨fun _ => 4294967295, 0⟩ : Words) [3, 5000000000] ∧
    4999999999 < 5000000000 := by
  obtain ⟨positions, _, calls, seeded⟩ := answers_within_range
  have made : ⟨18446744073709551615, 14246666336075071429⟩ ∈
      Source.calls (ofSeed 42) [6, 4294967296, 18446744073709551615] := by decide +kernel
  have greatest : ⟨5000000000, 4999999999⟩ ∈
      Source.calls (⟨fun _ => 4294967295, 0⟩ : Words) [3, 5000000000] := by decide +kernel
  refine ⟨by decide, positions 3 _ _ (by decide) (by decide) (by decide), made, ?_, greatest, ?_⟩
  · exact (seeded 42 _ (by decide) _ made).1
  · exact (calls _ _ (by decide) _ greatest).1

end Tabletop.Words
