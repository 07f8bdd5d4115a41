import Tabletop.Notation.Operation

/-! What a procedure notes about its progress. -/

set_option autoImplicit false

namespace Tabletop

inductive Level where
  | trace
  | debug
  | warn
  deriving DecidableEq, Repr

inductive Record where
  /-- A token was read at a position of the notation. -/
  | lexeme (token : Notation.Token) (position : Nat)
  | exploded (face : Face)
  | explosionPending (targets : ValueSet) (limit : Nat)
  | evaluated (input : String) (roll : Roll)
  /-- A table was rolled on: the sum shown, the value looked up last, the text drawn. -/
  | tableRolled (id : String) (shown final : Int) (text : String)
  | registered (id : String)
  | alreadyRegistered (id : String)
  deriving DecidableEq

namespace Record

def level : Record → Level
  | .lexeme .. | .exploded .. => .trace
  | .evaluated .. | .tableRolled .. | .registered .. => .debug
  | .explosionPending .. | .alreadyRegistered .. => .warn

def message : Record → String
  | .lexeme token position => s!"lexeme {token.text} at {position}"
  | .exploded face => s!"exploded into {face.label}"
  | .explosionPending targets limit =>
    s!"explosion on [{targets.text}] still pending after {limit} rerolls"
  | .evaluated input roll => s!"{trimmed input} -> [{roll.text}] = {roll.sum}"
  | .tableRolled id shown final text => s!"table {id} rolled {shown} -> {final}: {text}"
  | .registered id => s!"registered table {id}"
  | .alreadyRegistered id => s!"table {id} already registered"

def line (entry : Record) : Level × String := (entry.level, entry.message)

end Record

end Tabletop
