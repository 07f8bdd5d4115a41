import Tabletop.Fault
import Tabletop.ValueSet

/-! Faces, dice and several dice of one kind.

A die is determined by its list of faces, of which at least two differ in
value. So a die has a face, and its least value is below its greatest. -/

set_option autoImplicit false

namespace Tabletop

/-- One outcome of a die. The label need not spell the value. -/
structure Face where
  value : Int
  label : String
  deriving DecidableEq

def Face.numbered (value : Int) : Face := ⟨value, toString value⟩

def distinctValues (faces : List Face) : Nat := (ValueSet.ofList (faces.map Face.value)).size

structure Die where
  faces : List Face
  varied : 2 ≤ distinctValues faces
  deriving DecidableEq

namespace Die

def ofFaces (faces : List Face) : Except Fault Die :=
  if varied : 2 ≤ distinctValues faces then .ok ⟨faces, varied⟩
  else .error (.tooFewValues (distinctValues faces))

theorem faces_ne_nil (die : Die) : die.faces ≠ [] := by
  intro none
  have varied := die.varied
  rw [none] at varied
  exact absurd varied (by decide)

theorem faces_pos (die : Die) : 0 < die.faces.length :=
  List.length_pos_iff.2 die.faces_ne_nil

def distinct (die : Die) : Nat := distinctValues die.faces

def lowest (die : Die) : Face := die.faces.minOn Face.value die.faces_ne_nil

def highest (die : Die) : Face := die.faces.maxOn Face.value die.faces_ne_nil

def numberedFaces (sides : Nat) : List Face :=
  (List.range sides).map fun (index : Nat) => Face.numbered (index + 1)

@[simp] theorem length_numberedFaces (sides : Nat) : (numberedFaces sides).length = sides := by
  simp [numberedFaces]

theorem distinctValues_numberedFaces (sides : Nat) :
    distinctValues (numberedFaces sides) = sides := by
  have ascending : ((numberedFaces sides).map Face.value).Pairwise (· < ·) := by
    rw [numberedFaces, List.map_map]
    exact List.pairwise_map.2 (List.pairwise_lt_range.imp fun less => by
      simp only [Function.comp, Face.numbered]; omega)
  simp [distinctValues, ValueSet.size, ValueSet.values_ofList ascending]

/-- A number of sides is read as a signed word with `2 ^ 64` values: from `2 ^ 63` on it is
negative, and there are no faces to count. -/
def faceCount (sides : Nat) : Nat := (Int.bmod sides 18446744073709551616).toNat

theorem faceCount_of_le {sides : Nat} (le : (sides : Int) ≤ maxValue) : faceCount sides = sides :=
  congrArg Int.toNat (Int.bmod_eq_of_le_mul_two (by omega) (by simp only [maxValue] at le; omega))

def numbered (sides : Nat) : Except Fault Die := ofFaces (numberedFaces (faceCount sides))

private def standard (sides : Nat) (two : 2 ≤ sides) : Die :=
  ⟨numberedFaces sides, by rw [distinctValues_numberedFaces]; exact two⟩

def d2 : Die := standard 2 (by decide)
def d3 : Die := standard 3 (by decide)
def d4 : Die := standard 4 (by decide)
def d6 : Die := standard 6 (by decide)
def d8 : Die := standard 8 (by decide)
def d10 : Die := standard 10 (by decide)
def d12 : Die := standard 12 (by decide)
def d20 : Die := standard 20 (by decide)
def d100 : Die := standard 100 (by decide)

def fate : Die where
  faces := [⟨-1, "[-]"⟩, ⟨-1, "[-]"⟩, ⟨0, "[ ]"⟩, ⟨0, "[ ]"⟩, ⟨1, "[+]"⟩, ⟨1, "[+]"⟩]
  varied := by decide

def isNumbered (die : Die) : Bool := die.faces = numberedFaces die.faces.length

/-- `d` and the number of sides if the die is numbered; otherwise all its labels. -/
def text (die : Die) : String :=
  if die.isNumbered then s!"d{die.faces.length}"
  else "d[" ++ ",".intercalate (die.faces.map Face.label) ++ "]"

end Die

structure Dice where
  count : Nat
  die : Die
  count_pos : 0 < count
  deriving DecidableEq

namespace Dice

def ofCount (count : Nat) (die : Die) : Except Fault Dice :=
  if count_pos : 0 < count then .ok ⟨count, die, count_pos⟩ else .error .zeroValue

def lowest (dice : Dice) : Int := scaled dice.count dice.die.lowest.value

def highest (dice : Dice) : Int := scaled dice.count dice.die.highest.value

def text (dice : Dice) : String := toString dice.count ++ dice.die.text

end Dice

end Tabletop
