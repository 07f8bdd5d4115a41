import Tabletop.Throw

/-! The faces that a die shows on a source.

A source and a die determine a sequence of faces: those of rolling the die again
and again. Procedures that roll one die take a beginning of this sequence. -/

set_option autoImplicit false

namespace Tabletop.Die

variable {σ : Type} [Source σ]

def after (die : Die) (source : σ) : Nat → σ
  | 0 => source
  | count + 1 => (die.roll.run (die.after source count)).source

/-- The face of the roll that follows `index` others. -/
def face (die : Die) (source : σ) (index : Nat) : Face :=
  (die.roll.run (die.after source index)).value

def shown (die : Die) (source : σ) (count : Nat) : List Face :=
  (List.range count).map (die.face source)

theorem run_roll (die : Die) (source : σ) :
    die.roll.run source = ⟨die.face source 0, die.after source 1, [die.faces.length], []⟩ := by
  simp [face, after, roll, Rolling.run_draw]

theorem getElem?_roll (die : Die) (source : σ) :
    die.faces[(Source.index die.faces.length source).1 % die.faces.length]? =
      some (die.roll.run source).value := by
  simp [roll, Rolling.run_draw]

theorem after_succ (die : Die) (source : σ) (count : Nat) :
    die.after source (count + 1) = die.after (die.after source 1) count := by
  induction count with
  | zero => rfl
  | succ count ih =>
    rw [after, ih]
    rfl

theorem face_succ (die : Die) (source : σ) (index : Nat) :
    die.face source (index + 1) = die.face (die.after source 1) index := by
  unfold face
  rw [after_succ]

theorem face_mem (die : Die) (source : σ) (index : Nat) : die.face source index ∈ die.faces := by
  unfold face roll
  rw [Rolling.run_draw]
  exact List.get_mem _ _

@[simp] theorem shown_zero (die : Die) (source : σ) : die.shown source 0 = [] := rfl

theorem shown_succ (die : Die) (source : σ) (count : Nat) :
    die.shown source (count + 1) = die.face source 0 :: die.shown (die.after source 1) count := by
  unfold shown
  rw [List.range_succ_eq_map, List.map_cons, List.map_map]
  apply congrArg (die.face source 0 :: ·)
  apply List.map_congr_left
  intro index _
  exact die.face_succ source index

@[simp] theorem length_shown (die : Die) (source : σ) (count : Nat) :
    (die.shown source count).length = count := by
  simp [shown]

theorem mem_faces_of_mem_shown {die : Die} {source : σ} {count : Nat} {face : Face}
    (member : face ∈ die.shown source count) : face ∈ die.faces := by
  obtain ⟨index, _, rfl⟩ := List.mem_map.1 member
  exact die.face_mem source index

theorem run_rollMany (die : Die) (count : Nat) (source : σ) :
    (die.rollMany count).run source =
      ⟨die.shown source count, die.after source count, List.replicate count die.faces.length, []⟩ := by
  induction count generalizing source with
  | zero => rfl
  | succ count ih =>
    rw [rollMany_succ]
    simp only [Rolling.run_bind, run_roll, ih, Rolling.pure_eq_done, Rolling.run_done]
    rw [shown_succ, after_succ die source count]
    simp [List.replicate_succ]

end Tabletop.Die

namespace Tabletop

variable {σ : Type} [Source σ]

theorem Dice.run_roll (dice : Dice) (source : σ) :
    dice.roll.run source =
      ⟨⟨dice.die, dice.die.shown source dice.count⟩, dice.die.after source dice.count,
        List.replicate dice.count dice.die.faces.length, []⟩ := by
  simp [roll, Rolling.run_bind, Die.run_rollMany]

theorem Roll.run_reroll (roll : Roll) (source : σ) :
    roll.reroll.run source =
      ⟨⟨roll.die, roll.die.shown source roll.size⟩, roll.die.after source roll.size,
        List.replicate roll.size roll.die.faces.length, []⟩ := by
  simp [reroll, Rolling.run_bind, Die.run_rollMany]

end Tabletop
