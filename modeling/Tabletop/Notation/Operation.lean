import Tabletop.Roll

/-! The operations of dice notation and how they are written.

An operation is given over some form of numerals: a token holds numbers, a
spelling the digits that stand in a text. Both are written by the one rule. -/

set_option autoImplicit false

namespace Tabletop.Notation

/-- An operation whose counts and values are numerals of the form `ν`. -/
inductive Operation (ν : Type) where
  /-- Throws new dice in place of what was rolled before. -/
  | dice (count faces : ν)
  | keep (side : Side) (count : ν)
  | drop (side : Side) (count : ν)
  | keepValues (values : List ν)
  | dropValues (values : List ν)
  | explode (values : List ν)
  deriving DecidableEq, Repr

abbrev Token := Operation Nat

abbrev Spelling := Operation (List Char)

namespace Operation

variable {ν μ : Type}

def chars (write : ν → List Char) : Operation ν → List Char
  | .dice count faces => write count ++ 'd' :: write faces
  | .keep side count => 'K' :: side.letter :: write count
  | .drop side count => 'D' :: side.letter :: write count
  | .keepValues values => 'K' :: 'n' :: [','].intercalate (values.map write)
  | .dropValues values => 'D' :: 'n' :: [','].intercalate (values.map write)
  | .explode values => 'X' :: [','].intercalate (values.map write)

theorem chars_ne_nil (write : ν → List Char) (operation : Operation ν) :
    operation.chars write ≠ [] := by
  cases operation <;> simp [chars]

def read {ε : Type} (count value : ν → Except ε μ) : Operation ν → Except ε (Operation μ)
  | .dice number faces => return .dice (← count number) (← count faces)
  | .keep side number => return .keep side (← count number)
  | .drop side number => return .drop side (← count number)
  | .keepValues values => return .keepValues (← values.mapM value)
  | .dropValues values => return .dropValues (← values.mapM value)
  | .explode values => return .explode (← values.mapM value)

end Operation

def Token.text (token : Token) : String := String.ofList (token.chars (Nat.toDigits 10))

end Tabletop.Notation
