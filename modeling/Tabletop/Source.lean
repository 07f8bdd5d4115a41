/-! Where random choices come from. -/

set_option autoImplicit false

namespace Tabletop

/-- A source of choices: asked for a position below a bound, it gives an answer and
what is left of it. The answer need not be below the bound; who draws reduces it. -/
class Source (σ : Type) where
  index : Nat → σ → Nat × σ

structure Scripted where
  script : List Nat
  given : Nat
  deriving DecidableEq, Repr

namespace Scripted

def ofList (script : List Nat) : Scripted := ⟨script, 0⟩

/-- The script for values of numbered dice, where value one stands at position zero. -/
def ofValues (values : List Nat) : Scripted := ofList (values.map (· - 1))

/-- The next answer of the script, from its start again after its end, reduced into the
range. Without a script, or without a choice, it is zero and no answer is used up. -/
def index (below : Nat) (source : Scripted) : Nat × Scripted :=
  if below = 0 then (0, source)
  else
    match source.script[source.given % source.script.length]? with
    | none => (0, source)
    | some answer => (answer % below, { source with given := source.given + 1 })

instance : Source Scripted := ⟨index⟩

end Scripted

end Tabletop
