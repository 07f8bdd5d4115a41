import Tabletop.Pool
import Tabletop.Proofs.Chains
import Tabletop.Proofs.Changes

/-! Procedures that reduce the answers they draw.

A source may answer anything, and a procedure is handed what it answers. All that the procedures
of this library do with an answer is to look where it falls in the range asked for, and there is
always a range to fall in. -/

set_option autoImplicit false

namespace Tabletop

namespace Rolling

/-- The procedure asks for no empty range, and of an answer it sees only its remainder. -/
inductive Reducing {α : Type} : Rolling α → Prop where
  | done (value : α) : Reducing (.done value)
  | draw {below : Nat} {next : Nat → Rolling α} (positive : 0 < below)
      (reduced : ∀ answer, next answer = next (answer % below))
      (later : ∀ answer, Reducing (next answer)) : Reducing (.draw below next)
  | note {entry : Record} {next : Rolling α} (later : Reducing next) : Reducing (.note entry next)

namespace Reducing

variable {α β : Type} {tree : Rolling α}

theorem bind {next : α → Rolling β} (reducing : tree.Reducing)
    (each : ∀ value, (next value).Reducing) : (tree >>= next).Reducing := by
  induction reducing with
  | done value => exact each value
  | draw positive reduced _ ih =>
    exact .draw positive (fun answer => congrArg (· >>= next) (reduced answer)) ih
  | note _ ih => exact .note ih

theorem map {change : α → β} (reducing : tree.Reducing) : (change <$> tree).Reducing := by
  rw [map_eq_pure_bind]
  exact reducing.bind fun value => .done (change value)

theorem mapM {make : β → Rolling α} (each : ∀ member, (make member).Reducing)
    (members : List β) : (members.mapM make).Reducing := by
  induction members with
  | nil => exact .done []
  | cons member rest ih =>
    rw [List.mapM_cons]
    exact (each member).bind fun first => ih.bind fun others => .done (first :: others)

end Reducing

theorem reducing_recordAll (entries : List Record) : (recordAll entries).Reducing := by
  induction entries with
  | nil => exact .done ()
  | cons entry rest ih => exact .note ih

end Rolling

open Rolling (Reducing)

theorem Die.reducing_roll (die : Die) : die.roll.Reducing := by
  refine .draw die.faces_pos (fun answer => ?_) fun answer => .done _
  simp only [Nat.mod_mod]

theorem Die.reducing_rollOnto (die : Die) (count : Nat) (fallen : List Face) :
    (die.rollOnto count fallen).Reducing := by
  induction count generalizing fallen with
  | zero => exact .done _
  | succ count ih => exact die.reducing_roll.bind fun face => ih (face :: fallen)

theorem Dice.reducing_roll (dice : Dice) : dice.roll.Reducing :=
  (dice.die.reducing_rollOnto dice.count []).bind fun _ => .done _

namespace Roll

theorem reducing_reroll (roll : Roll) : roll.reroll.Reducing :=
  (roll.die.reducing_rollOnto roll.size []).bind fun _ => .done _

theorem reducing_explodeOnto (roll : Roll) (targets : ValueSet) (limit left due : Nat)
    (added : List Face) : (roll.explodeOnto targets limit left due added).Reducing := by
  induction left generalizing due added with
  | zero =>
    cases due with
    | zero => exact .done _
    | succ due => exact .note (.done _)
  | succ left ih =>
    cases due with
    | zero => exact .done _
    | succ due => exact roll.die.reducing_roll.bind fun face => .note (ih _ _)

theorem reducing_explode (roll : Roll) (targets : ValueSet) (limit : Nat) :
    (roll.explode targets limit).Reducing :=
  roll.reducing_explodeOnto targets limit limit _ []

end Roll

namespace Change

theorem reducing_apply (change : Change) (roll : Roll) : (change.apply roll).Reducing := by
  cases change with
  | keep | drop | keepValues | dropValues => exact .done _
  | explode targets => exact roll.reducing_explode targets Roll.explosionLimit
  | explodeWithin limit targets => exact roll.reducing_explode targets limit
  | reroll => exact roll.reducing_reroll.map

theorem reducing_outcomes (changes : List Change) (roll : Roll) :
    (outcomes changes roll).Reducing := by
  induction changes generalizing roll with
  | nil => exact .done _
  | cons change rest ih =>
    exact (change.reducing_apply roll).bind fun outcome => (ih _).bind fun later => .done _

end Change

namespace Notation

theorem reducing_perform (limits : Limits) (text : String) (token : Token) (before : Option Roll) :
    (perform limits text token before).Reducing := by
  cases token with
  | dice count faces =>
    simp only [perform]
    split
    · next dice _ => exact dice.reducing_roll.map
    · exact .done _
  | keep | drop | keepValues | dropValues =>
    cases before with
    | none => exact .done _
    | some roll => exact .done _
  | explode values =>
    cases before with
    | none => exact .done _
    | some roll =>
      simp only [perform]
      split
      · next set _ => exact (roll.reducing_explode set limits.explosion).map
      · exact .done _

theorem reducing_performAll (limits : Limits) (lexemes : List Lexeme) (before : Option Roll) :
    (performAll limits lexemes before).Reducing := by
  induction lexemes generalizing before with
  | nil => exact .done _
  | cons lexeme rest ih =>
    refine (reducing_perform limits lexeme.text lexeme.token before).bind fun outcome => ?_
    cases outcome with
    | ok roll => exact ih (some roll)
    | error fault => exact .done _

theorem reducing_settle (input : String) (scan : Scan) (final : Option Roll) :
    (settle input scan final).Reducing := by
  unfold settle
  split
  · exact .done _
  · exact .done _
  · exact .note (.done _)

theorem reducing_interpret (limits : Limits) (input : String) (scan : Scan) :
    (interpret limits input scan).Reducing := by
  unfold interpret
  split
  · exact .done _
  · refine (reducing_performAll limits scan.lexemes none).bind fun outcome => ?_
    cases outcome with
    | ok final => exact reducing_settle input scan final
    | error fault => exact .done _

theorem reducing_evaluate (limits : Limits) (input : String) :
    (evaluate limits input).Reducing := by
  unfold evaluate
  split
  · exact .done _
  · exact (Rolling.reducing_recordAll _).bind fun _ => reducing_interpret limits input _

end Notation

theorem Pool.reducing_roll (pool : Pool) : pool.roll.Reducing :=
  (Reducing.mapM Dice.reducing_roll pool.groups).bind fun _ => .done _

theorem Choices.reducing_roll (choices : Choices) : choices.roll.Reducing := by
  unfold roll
  split
  · next some_item =>
    refine .draw some_item (fun answer => ?_) fun answer => .done _
    simp only [Nat.mod_mod]
  · exact .done _

namespace Table

variable {α : Type} {table : Table α} {call : α → Rolling (Option (Except Fault String))}

theorem reducing_act (each : ∀ item ∈ table.items, ∀ action ∈ item.action, (call action).Reducing)
    (shown final : Int) (texts : List String) : (table.act call shown final texts).Reducing := by
  unfold act
  split
  · exact .note (.done _)
  · next action acts =>
    obtain ⟨item, member, acted⟩ := item_of_actionOf? acts
    refine (each item member action acted).bind fun answer => ?_
    rcases answer with _ | fault | text
    · exact .done _
    · exact .done _
    · exact .note (.done _)

/-- A roll on a table reduces what it draws, if the actions of its items do. -/
theorem reducing_roll
    (each : ∀ item ∈ table.items, ∀ action ∈ item.action, (call action).Reducing) :
    (table.roll call).Reducing := by
  refine table.dice.reducing_roll.bind fun thrown => ?_
  dsimp only
  split
  · exact reducing_act each _ _ _
  · next dice _ => exact dice.reducing_roll.bind fun again => reducing_act each _ _ _

end Table

namespace Registry

variable {registry : Registry Action}

theorem reducing_call {nesting : Nat} (rolls : ∀ id, (registry.roll nesting id).Reducing)
    {table : Table Action} (linked : table.Linked) :
    ∀ item ∈ table.items, ∀ action ∈ item.action, (registry.call nesting action).Reducing := by
  intro item member action acted
  obtain ⟨target, rfl⟩ := linked item member action acted
  rw [call_rerollOn]
  exact rolls target

theorem reducing_roll (linked : registry.Linked) (nesting : Nat) (id : String) :
    (registry.roll nesting id).Reducing := by
  induction nesting generalizing id with
  | zero =>
    cases found : registry.find? id with
    | none =>
      rw [roll_of_absent found]
      exact .done _
    | some table =>
      rw [roll_zero_of_found found]
      exact .done _
  | succ nesting ih =>
    cases found : registry.find? id with
    | none =>
      rw [roll_of_absent found]
      exact .done _
    | some table =>
      rw [roll_succ_of_found found]
      exact Table.reducing_roll (reducing_call ih (linked table (mem_tables_of_find? found)))

end Registry

end Tabletop
