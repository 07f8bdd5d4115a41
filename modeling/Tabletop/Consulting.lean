import Tabletop.Rolling

/-! Procedures that may consult registered tables.

They refer to a table by its id, and the id is looked up only when the procedure
asks for it. So a table may refer to one that is registered later, or to itself. -/

set_option autoImplicit false

namespace Tabletop

/-- A procedure that, besides drawing and noting, may consult registered tables. -/
inductive Consulting (α : Type) where
  | done (value : α)
  | draw (below : Nat) (next : Nat → Consulting α)
  | note (entry : Record) (next : Consulting α)
  /-- Rolls on the table with an id and goes on with the text, or with the fault met. -/
  | rollOn (id : String) (next : Except Fault String → Consulting α)
  | registered (id : String) (next : Bool → Consulting α)
  | tableCount (next : Nat → Consulting α)

namespace Consulting

variable {α β : Type}

protected def bind : Consulting α → (α → Consulting β) → Consulting β
  | .done value, next => next value
  | .draw below branch, next => .draw below fun answer => (branch answer).bind next
  | .note entry rest, next => .note entry (rest.bind next)
  | .rollOn id branch, next => .rollOn id fun answer => (branch answer).bind next
  | .registered id branch, next => .registered id fun answer => (branch answer).bind next
  | .tableCount branch, next => .tableCount fun answer => (branch answer).bind next

instance : Monad Consulting where
  pure := .done
  bind := Consulting.bind

def ofRolling : Rolling α → Consulting α
  | .done value => .done value
  | .draw below next => .draw below fun answer => ofRolling (next answer)
  | .note entry next => .note entry (ofRolling next)

instance : MonadLift Rolling Consulting := ⟨ofRolling⟩

end Consulting

abbrev Action := Consulting (Except Fault String)

def Action.rerollOn (id : String) : Action := .rollOn id .done

end Tabletop
