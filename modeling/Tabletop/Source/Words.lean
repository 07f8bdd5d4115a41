import Tabletop.Source

/-! Choices made from random words.

A position below `n` is the high half of the product of `n` and a word of 32 or 64
bits. If the low half is so great that a longer word might have carried into the
high half, a second word decides about the carry. -/

set_option autoImplicit false

namespace Tabletop

/-- Words of 32 bits without end, and the place of the next one. -/
structure Words where
  word : Nat → UInt32
  place : Nat

namespace Words

def shortWord : Nat := 4294967296

def longWord : Nat := 18446744073709551616

def wordValues (below : Nat) : Nat := if below < shortWord then shortWord else longWord

/-- The next word of the stream, or the next two with the low one first. -/
def draw (values : Nat) (source : Words) : Nat × Words :=
  let low := (source.word source.place).toNat
  if values = shortWord then (low, { source with place := source.place + 1 })
  else
    let high := (source.word (source.place + 1)).toNat
    (low + shortWord * high, { source with place := source.place + 2 })

def carryOpen (values below first : Nat) : Bool := values - below < first * below % values

/-- The carry that a second word settles. -/
def carry (values below first second : Nat) : Nat :=
  if values ≤ first * below % values + second * below / values then 1 else 0

def index (below : Nat) (source : Words) : Nat × Words :=
  let values := wordValues below
  let (first, source) := source.draw values
  if carryOpen values below first then
    let (second, source) := source.draw values
    (first * below / values + carry values below first second, source)
  else (first * below / values, source)

instance : Source Words := ⟨index⟩

end Words

end Tabletop
