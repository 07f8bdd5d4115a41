import Tabletop.Text

/-! What can go wrong with dice, rolls, tables and notation, and the wording of each fault.

A fault of notation may stem from a roll, and the fault of an action may stem
from notation, so the two kinds refer to each other. -/

set_option autoImplicit false

namespace Tabletop

mutual

inductive Fault where
  | zeroValue
  /-- A die needs two distinct face values. -/
  | tooFewValues (distinct : Nat)
  /-- More rolls are to be kept or dropped than there are. -/
  | countOutOfRange (count available : Nat)
  /-- A matching face was still pending after the last reroll allowed. -/
  | explosionPending (limit : Nat)
  | unknownTable (id : String)
  | duplicateTable (id : String)
  | badNotation (cause : NotationFault)
  deriving DecidableEq

inductive NotationFault where
  /-- The cause, at a distance in characters from the start of the text. -/
  | located (position : Nat) (cause : NotationFault)
  | number (cause : NumeralFault)
  | blank
  | unreadable (text : String)
  /-- The first token is not a dice token. -/
  | notDice (text : String)
  /-- A dice token with a count or number of faces that is not admitted. -/
  | invalidDice (text : String)
  /-- A token that keeps or drops more rolls than are left. -/
  | invalidCount (text : String)
  /-- A list with as many distinct values as the die has. -/
  | coveringSet (text : String)
  | badRoll (cause : Fault)
  deriving DecidableEq

end

mutual

def Fault.message : Fault → String
  | .zeroValue => "Zero value not allowed"
  | .tooFewValues distinct =>
    s!"Non-euclidean die: {distinct} distinct face value(s), at least 2 required"
  | .countOutOfRange count available =>
    s!"Keep or drop count {count} out of range for {available} roll(s)"
  | .explosionPending limit => s!"Explosion exceeded {limit} rerolls"
  | .unknownTable id => s!"No table registered with id [{id}]"
  | .duplicateTable id => s!"Table {id} already registered"
  | .badNotation cause => s!"Parser error - {cause.message}"

def NotationFault.message : NotationFault → String
  | .located position cause => s!"At position {position} - {cause.message}"
  | .number cause => s!"Invalid number: {cause.message}"
  | .blank => "Input string is empty"
  | .unreadable text => s!"Unable to parse: {text}"
  | .notDice text => s!"First argument must be a dice string (3d6 etc), got {text}"
  | .invalidDice text => s!"Invalid die: {text}"
  | .invalidCount text => s!"Keep or drop count out of range: {text}"
  | .coveringSet text => s!"Match set covers every face of the die: {text}"
  | .badRoll cause => s!"Roll error - {cause.message}"

end

namespace NotationFault

/-- The fault without its position; of two positions only the outer one is removed. -/
def cause : NotationFault → NotationFault
  | .located _ inner => inner
  | fault => fault

def position? : NotationFault → Option Nat
  | .located position _ => some position
  | _ => none

/-- Places a fault at a position, unless it has one already. -/
def locate (position : Nat) : NotationFault → NotationFault
  | .located given inner => .located given inner
  | fault => .located position fault

@[simp] theorem cause_locate (position : Nat) (fault : NotationFault) :
    (fault.locate position).cause = fault.cause := by
  cases fault <;> rfl

@[simp] theorem locate_locate (first second : Nat) (fault : NotationFault) :
    (fault.locate first).locate second = fault.locate first := by
  cases fault <;> rfl

end NotationFault

end Tabletop
