import Tabletop.Throw
import Tabletop.Notation.Scan

/-! Evaluating dice notation.

The text is split into tokens first. Their operations are then performed in order,
each on the roll that the one before it left. A fault of an operation ends the
evaluation where it stands; text that belongs to no token is a fault only after
all operations have been performed. -/

set_option autoImplicit false

namespace Tabletop.Notation

structure Limits where
  explosion : Nat
  dice : Nat
  faces : Nat
  positive : 0 < explosion ∧ 0 < dice ∧ 0 < faces
  deriving DecidableEq

namespace Limits

def standard : Limits :=
  ⟨Roll.explosionLimit, 1000, 10000, by decide⟩

instance : Inhabited Limits := ⟨standard⟩

def ofNumbers (explosion dice faces : Nat) : Except Fault Limits :=
  if positive : 0 < explosion ∧ 0 < dice ∧ 0 < faces then
    .ok ⟨explosion, dice, faces, positive⟩
  else .error .zeroValue

def dice? (limits : Limits) (count faces : Nat) : Option Dice :=
  if count ≤ limits.dice ∧ faces ≤ limits.faces then
    (Die.numbered faces >>= Dice.ofCount count).toOption
  else none

end Limits

/-- The set of a list of values. It must have fewer members than the die has values: a set
of all of them would keep, drop or explode every face. -/
def targets (roll : Roll) (values : List Nat) (text : String) : Except NotationFault ValueSet :=
  let set := ValueSet.ofList (values.map Int.ofNat)
  if set.size < roll.die.distinct then .ok set else .error (.coveringSet text)

def perform (limits : Limits) (text : String) :
    Token → Option Roll → Rolling (Except NotationFault Roll)
  | .dice count faces, _ =>
    match limits.dice? count faces with
    | some dice => .ok <$> dice.roll
    | none => pure (.error (.invalidDice text))
  | _, none => pure (.error (.notDice text))
  | .keep side count, some roll => pure ((roll.keep count side).mapError fun _ => .invalidCount text)
  | .drop side count, some roll => pure ((roll.drop count side).mapError fun _ => .invalidCount text)
  | .keepValues values, some roll => pure ((targets roll values text).map roll.keepValues)
  | .dropValues values, some roll => pure ((targets roll values text).map roll.dropValues)
  | .explode values, some roll =>
    match targets roll values text with
    | .ok set => (·.mapError .badRoll) <$> roll.explode set limits.explosion
    | .error fault => pure (.error fault)

/-- Performs the operations of lexemes in order. The first fault ends it, at the position of
its lexeme. -/
def performAll (limits : Limits) :
    List Lexeme → Option Roll → Rolling (Except NotationFault (Option Roll))
  | [], before => pure (.ok before)
  | lexeme :: rest, before => do
    match ← perform limits lexeme.text lexeme.token before with
    | .ok roll => performAll limits rest (some roll)
    | .error fault => pure (.error (fault.locate lexeme.position))

/-- What a text comes to once its operations have left `final`: text that belongs to no
token, or that holds no token at all, is unreadable. -/
def settle (input : String) (scan : Scan) (final : Option Roll) :
    Rolling (Except NotationFault Roll) :=
  match scan.remainder?, final with
  | some (position, text), _ => pure (.error (.located position (.unreadable text)))
  | none, none => pure (.error (.located 0 (.unreadable (trimmed input))))
  | none, some roll => .note (.evaluated input roll) (pure (.ok roll))

def interpret (limits : Limits) (input : String) (scan : Scan) :
    Rolling (Except NotationFault Roll) :=
  match scan.stopped with
  | some (position, fault) => pure (.error (.located position (.number fault)))
  | none => do
    match ← performAll limits scan.lexemes none with
    | .ok final => settle input scan final
    | .error fault => pure (.error fault)

def evaluate (limits : Limits) (input : String) : Rolling (Except NotationFault Roll) :=
  if input.toList.all isBlank then pure (.error (.located 0 .blank))
  else
    let scan := Scan.ofText input.toList
    Rolling.recordAll (scan.lexemes.map fun lexeme => .lexeme lexeme.token lexeme.position) >>=
      fun _ => interpret limits input scan

end Tabletop.Notation
