import Tabletop.Throw

/-! Dice of several kinds thrown together, such as two six-sided ones and one
eight-sided one. -/

set_option autoImplicit false

namespace Tabletop

structure Pool where
  groups : List Dice
  deriving DecidableEq

structure PoolRoll where
  rolls : List Roll
  deriving DecidableEq

namespace Pool

def size (pool : Pool) : Nat := pool.groups.length

def lowest (pool : Pool) : Int := saturatingSum (pool.groups.map Dice.lowest)

def highest (pool : Pool) : Int := saturatingSum (pool.groups.map Dice.highest)

def roll (pool : Pool) : Rolling PoolRoll := return ⟨← pool.groups.mapM Dice.roll⟩

end Pool

def Roll.dice? (roll : Roll) : Option Dice :=
  if some_face : 0 < roll.size then some ⟨roll.size, roll.die, some_face⟩ else none

namespace PoolRoll

def size (pool : PoolRoll) : Nat := pool.rolls.length

def sum (pool : PoolRoll) : Int := saturatingSum (pool.rolls.map Roll.sum)

def lowest (pool : PoolRoll) : Int := saturatingSum (pool.rolls.map Roll.lowest)

def highest (pool : PoolRoll) : Int := saturatingSum (pool.rolls.map Roll.highest)

/-- The dice that would show as many faces again. A roll without faces has none. -/
def dice (pool : PoolRoll) : Pool := ⟨pool.rolls.filterMap Roll.dice?⟩

end PoolRoll

end Tabletop
