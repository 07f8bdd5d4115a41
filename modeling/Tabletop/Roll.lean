import Tabletop.Die

/-! Rolled faces of one die, in the order they fell, and the selections made from them.

A selection by rank first sorts the faces by value. The sort is stable, so faces
of equal value stay in the order they fell. -/

set_option autoImplicit false

namespace Tabletop

inductive Side where
  | high
  | low
  deriving DecidableEq, Repr

def Side.letter : Side → Char
  | .high => 'h'
  | .low => 'l'

structure Roll where
  die : Die
  faces : List Face
  deriving DecidableEq

namespace Roll

def size (roll : Roll) : Nat := roll.faces.length

def isEmpty (roll : Roll) : Bool := roll.faces.isEmpty

def values (roll : Roll) : List Int := roll.faces.map Face.value

def labels (roll : Roll) : List String := roll.faces.map Face.label

def sum (roll : Roll) : Int := saturatingSum roll.values

def lowest (roll : Roll) : Int := scaled roll.size roll.die.lowest.value

def highest (roll : Roll) : Int := scaled roll.size roll.die.highest.value

def ranked (roll : Roll) : List Face :=
  roll.faces.mergeSort fun first second => first.value ≤ second.value

@[simp] theorem length_ranked (roll : Roll) : roll.ranked.length = roll.size :=
  List.length_mergeSort _

def text (roll : Roll) : String := ", ".intercalate (roll.ranked.map Face.label)

/-- Selects from the ranked faces, of which there must be `count`. -/
def select (roll : Roll) (count : Nat) (choose : List Face → List Face) : Except Fault Roll :=
  if count ≤ roll.size then .ok { roll with faces := choose roll.ranked }
  else .error (.countOutOfRange count roll.size)

def keep (roll : Roll) (count : Nat) : Side → Except Fault Roll
  | .high => roll.select count (·.drop (roll.size - count))
  | .low => roll.select count (·.take count)

def drop (roll : Roll) (count : Nat) : Side → Except Fault Roll
  | .high => roll.select count (·.take (roll.size - count))
  | .low => roll.select count (·.drop count)

def keepValues (roll : Roll) (set : ValueSet) : Roll :=
  { roll with faces := roll.faces.filter fun face => set.contains face.value }

def dropValues (roll : Roll) (set : ValueSet) : Roll :=
  { roll with faces := roll.faces.filter fun face => !set.contains face.value }

def matching (roll : Roll) (set : ValueSet) : Nat :=
  roll.faces.countP fun face => set.contains face.value

end Roll

end Tabletop
