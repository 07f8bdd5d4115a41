import Tabletop.Rolling

/-! Throwing dice: each face is one draw over all the faces of the die.

In an exploding roll each face with a value among the targets earns one reroll, and so
does each reroll that shows such a value. Only the number of rerolls still due is kept.
It does not matter which face they are due to, since all are rolls of one die. -/

set_option autoImplicit false

namespace Tabletop

/-- Draws a face. An answer beyond the faces is counted from the first one again. -/
def Die.roll (die : Die) : Rolling Face :=
  .draw die.faces.length fun answer =>
    .done (die.faces.get ⟨answer % die.faces.length, Nat.mod_lt answer die.faces_pos⟩)

/-- Draws `count` faces behind those in `fallen`, which are held latest first. -/
def Die.rollOnto (die : Die) : Nat → List Face → Rolling (List Face)
  | 0, fallen => pure fallen.reverse
  | count + 1, fallen => do
    let face ← die.roll
    die.rollOnto count (face :: fallen)

def Die.rollMany (die : Die) (count : Nat) : Rolling (List Face) := die.rollOnto count []

theorem Die.rollOnto_eq (die : Die) (count : Nat) (fallen : List Face) :
    die.rollOnto count fallen = (fallen.reverse ++ ·) <$> die.rollMany count := by
  induction count generalizing fallen with
  | zero => simp [rollMany, rollOnto, map_eq_pure_bind]
  | succ count ih =>
    simp only [rollMany, rollOnto]
    rw [map_bind]
    refine bind_congr fun face => ?_
    rw [ih (face :: fallen), ih [face]]
    simp [Functor.map_map]

theorem Die.rollMany_succ (die : Die) (count : Nat) :
    die.rollMany (count + 1) =
      die.roll >>= fun face => die.rollMany count >>= fun faces => pure (face :: faces) := by
  refine bind_congr fun face => ?_
  rw [rollOnto_eq, map_eq_pure_bind]
  rfl

def Dice.roll (dice : Dice) : Rolling Roll := return ⟨dice.die, ← dice.die.rollMany dice.count⟩

def Roll.reroll (roll : Roll) : Rolling Roll := return ⟨roll.die, ← roll.die.rollMany roll.size⟩

namespace Roll

def explosionLimit : Nat := 1000

/-- Makes the rerolls that are due, with `left` rerolls of the limit still to spend and the
faces added so far held latest first. -/
def explodeOnto (roll : Roll) (targets : ValueSet) (limit : Nat) :
    (left due : Nat) → (added : List Face) → Rolling (Except Fault Roll)
  | _, 0, added => pure (.ok { roll with faces := roll.faces ++ added.reverse })
  | 0, _ + 1, _ =>
    .note (.explosionPending targets limit) (pure (.error (.explosionPending limit)))
  | left + 1, due + 1, added => do
    let face ← roll.die.roll
    .note (.exploded face) <|
      roll.explodeOnto targets limit left
        (if targets.contains face.value then due + 1 else due) (face :: added)

/-- Explodes a roll. The rerolls follow the faces that were there, in the order they were
made. It fails if a reroll is due when `limit` of them have been made. -/
def explode (roll : Roll) (targets : ValueSet) (limit : Nat) : Rolling (Except Fault Roll) :=
  roll.explodeOnto targets limit limit (roll.matching targets) []

end Roll

end Tabletop
