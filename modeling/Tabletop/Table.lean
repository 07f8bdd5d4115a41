import Tabletop.Throw

/-! Tables that map the sum of a throw to text, and lists of texts to draw from.

The item that a throw ends on may carry an action, which adds a text of its own. What
an action does is not settled here: whoever rolls says how actions are called, and a
call may give no answer at all. -/

set_option autoImplicit false

namespace Tabletop

/-- A row of a table: the values that lead to it, its text, and its action if it has one. -/
structure Item (α : Type) where
  values : ValueSet
  text : String
  action : Option α := none

structure Reroll where
  values : ValueSet
  dice : Dice
  deriving DecidableEq

structure Table (α : Type) where
  id : String
  dice : Dice
  name : String := ""
  /-- Added to the sum of the first throw. -/
  modifier : Int := 0
  reroll : Option Reroll := none
  items : List (Item α) := []

namespace Table

variable {α : Type}

def matching (table : Table α) (value : Int) : List (Item α) :=
  table.items.filter fun item => item.values.contains value

def textsOf (table : Table α) (value : Int) : List String := (table.matching value).map Item.text

def firstValue (table : Table α) (shown : Int) : Int :=
  clamp table.dice.lowest table.dice.highest (saturatingAdd shown table.modifier)

def again? (table : Table α) (value : Int) : Option Dice :=
  match table.reroll with
  | some reroll => if reroll.values.contains value then some reroll.dice else none
  | none => none

def actionOf? (table : Table α) (value : Int) : Option α :=
  (table.matching value).head?.bind Item.action

def conclude (table : Table α) (shown final : Int) (texts : List String) :
    Rolling (Option (Except Fault String)) :=
  let text := "; ".intercalate texts
  .note (.tableRolled table.id shown final text) (pure (some (.ok text)))

def act (table : Table α) (call : α → Rolling (Option (Except Fault String)))
    (shown final : Int) (texts : List String) : Rolling (Option (Except Fault String)) :=
  match table.actionOf? final with
  | none => table.conclude shown final texts
  | some action => do
    match ← call action with
    | some (.ok text) => table.conclude shown final (texts ++ [text])
    | some (.error fault) => pure (some (.error fault))
    | none => pure none

/-- Rolls on the table. All items matching the first value give their text, then, if there is
a second throw, all items matching its plain sum. -/
def roll (table : Table α) (call : α → Rolling (Option (Except Fault String))) :
    Rolling (Option (Except Fault String)) := do
  let shown := (← table.dice.roll).sum
  let value := table.firstValue shown
  match table.again? value with
  | none => table.act call shown value (table.textsOf value)
  | some dice =>
    let final := (← dice.roll).sum
    table.act call shown final (table.textsOf value ++ table.textsOf final)

end Table

structure Choices where
  name : String
  items : List String
  deriving DecidableEq, Repr

namespace Choices

def text (choices : Choices) : String := ", ".intercalate choices.items

/-- Draws one item; of an empty list the empty text, without a draw. -/
def roll (choices : Choices) : Rolling String :=
  if some_item : 0 < choices.items.length then
    .draw choices.items.length fun answer =>
      .done (choices.items.get ⟨answer % choices.items.length, Nat.mod_lt answer some_item⟩)
  else .done ""

end Choices

end Tabletop
