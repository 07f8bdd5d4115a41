import Tabletop.Proofs.Notation.Ending

/-! Evaluation with every check of its own.

Here the first lexeme is told from the others before anything is thrown, a count is checked
before the selection that fails on it, and a fault may be placed where it arises and again
where it is passed on. That leaves three branches which nothing takes: whatever is answered
there, the evaluation is the same. -/

set_option autoImplicit false

namespace Tabletop.Notation

/-- Answers for the branches that no evaluation takes. -/
structure Fallbacks where
  /-- A text without a token of which nothing is left behind. -/
  nothingLeft : String → NotationFault
  /-- A lexeme to be thrown that is not dice. -/
  notDice : Lexeme → NotationFault
  /-- A selection that fails although its count was checked. -/
  selection : Fault → NotationFault

namespace Fallbacks

def throw (fallbacks : Fallbacks) (limits : Limits) (lexeme : Lexeme) :
    Rolling (Except NotationFault Roll) :=
  match lexeme.token with
  | .dice count faces =>
    match limits.dice? count faces with
    | some dice => .ok <$> dice.roll
    | none => pure (.error ((NotationFault.invalidDice lexeme.text).locate lexeme.position))
  | .keep _ _ | .drop _ _ | .keepValues _ | .dropValues _ | .explode _ =>
    pure (.error (fallbacks.notDice lexeme))

def checked (fallbacks : Fallbacks) (lexeme : Lexeme) (roll : Roll) (count : Nat)
    (selected : Except Fault Roll) : Except NotationFault Roll :=
  if roll.size < count then .error (.invalidCount lexeme.text)
  else selected.mapError fallbacks.selection

def apply (fallbacks : Fallbacks) (limits : Limits) (roll : Roll) (lexeme : Lexeme) :
    Rolling (Except NotationFault Roll) :=
  match lexeme.token with
  | .dice _ _ => fallbacks.throw limits lexeme
  | .keep side count => pure (fallbacks.checked lexeme roll count (roll.keep count side))
  | .drop side count => pure (fallbacks.checked lexeme roll count (roll.drop count side))
  | .keepValues values => pure ((targets roll values lexeme.text).map roll.keepValues)
  | .dropValues values => pure ((targets roll values lexeme.text).map roll.dropValues)
  | .explode values =>
    match targets roll values lexeme.text with
    | .ok set => (·.mapError .badRoll) <$> roll.explode set limits.explosion
    | .error fault => pure (.error fault)

def applyAll (fallbacks : Fallbacks) (limits : Limits) :
    List Lexeme → Roll → Rolling (Except NotationFault Roll)
  | [], roll => pure (.ok roll)
  | lexeme :: rest, roll => do
    match ← fallbacks.apply limits roll lexeme with
    | .ok next => fallbacks.applyAll limits rest next
    | .error fault => pure (.error (fault.locate lexeme.position))

def start (fallbacks : Fallbacks) (limits : Limits) (first : Lexeme) :
    Rolling (Except NotationFault Roll) :=
  match first.token with
  | .dice _ _ => fallbacks.throw limits first
  | .keep _ _ | .drop _ _ | .keepValues _ | .dropValues _ | .explode _ =>
    pure (.error ((NotationFault.notDice first.text).locate first.position))

def unreadable (fallbacks : Fallbacks) (input : String) : Option (Nat × String) → NotationFault
  | some (position, text) => (NotationFault.unreadable text).locate position
  | none => fallbacks.nothingLeft input

def interpret (fallbacks : Fallbacks) (limits : Limits) (input : String) (scan : Scan) :
    Rolling (Except NotationFault Roll) :=
  match scan.stopped, scan.lexemes with
  | some (position, fault), _ => pure (.error ((NotationFault.number fault).locate position))
  | none, [] => pure (.error (fallbacks.unreadable input scan.remainder?))
  | none, first :: rest => do
    match ← fallbacks.start limits first with
    | .error fault => pure (.error fault)
    | .ok roll =>
      match ← fallbacks.applyAll limits rest roll with
      | .error fault => pure (.error fault)
      | .ok roll =>
        match scan.remainder? with
        | some remainder => pure (.error (fallbacks.unreadable input (some remainder)))
        | none => .note (.evaluated input roll) (pure (.ok roll))

def evaluate (fallbacks : Fallbacks) (limits : Limits) (input : String) :
    Rolling (Except NotationFault Roll) :=
  if input.toList.all isBlank then pure (.error (NotationFault.blank.locate 0))
  else
    let scan := Scan.ofText input.toList
    Rolling.recordAll (scan.lexemes.map fun lexeme => .lexeme lexeme.token lexeme.position) >>=
      fun _ => fallbacks.interpret limits input scan

variable {fallbacks : Fallbacks} {limits : Limits}

theorem checked_select (lexeme : Lexeme) (roll : Roll) (count : Nat)
    (choose : List Face → List Face) :
    fallbacks.checked lexeme roll count (roll.select count choose) =
      (roll.select count choose).mapError fun _ => .invalidCount lexeme.text := by
  unfold checked Roll.select
  by_cases enough : count ≤ roll.size
  · rw [if_neg (Nat.not_lt.2 enough), if_pos enough]
    rfl
  · rw [if_pos (Nat.lt_of_not_le enough), if_neg enough]
    rfl

theorem throw_dice {lexeme : Lexeme} {count faces : Nat} (dice : lexeme.token = .dice count faces)
    (before : Option Roll) :
    fallbacks.throw limits lexeme =
      (·.mapError (·.locate lexeme.position)) <$>
        perform limits lexeme.text lexeme.token before := by
  simp only [throw, dice, perform]
  cases limits.dice? count faces with
  | none => rfl
  | some dice =>
    rw [Functor.map_map]
    rfl

theorem start_eq (first : Lexeme) :
    fallbacks.start limits first =
      (·.mapError (·.locate first.position)) <$> perform limits first.text first.token none := by
  unfold start
  split
  · next dice => exact throw_dice dice none
  all_goals
    next other =>
    rw [other]
    rfl

/-- Once it is placed, a fault does not tell whether it was placed before. -/
theorem located_apply (roll : Roll) (lexeme : Lexeme) :
    (·.mapError (·.locate lexeme.position)) <$> fallbacks.apply limits roll lexeme =
      (·.mapError (·.locate lexeme.position)) <$>
        perform limits lexeme.text lexeme.token (some roll) := by
  unfold apply
  split
  · next dice =>
    rw [throw_dice dice (some roll), Functor.map_map]
    apply congrArg (· <$> _)
    funext result
    cases result <;> simp [Except.mapError]
  · next side count keep =>
    rw [keep]
    cases side <;> exact congrArg _ (congrArg _ (checked_select lexeme roll count _))
  · next side count drop =>
    rw [drop]
    cases side <;> exact congrArg _ (congrArg _ (checked_select lexeme roll count _))
  all_goals
    next other =>
    rw [other]
    rfl

theorem bind_located {β : Type} (tree : Rolling (Except NotationFault Roll)) (position : Nat)
    (next : Roll → Rolling (Except NotationFault β)) :
    (tree >>= fun
      | .ok roll => next roll
      | .error fault => pure (.error (fault.locate position))) =
    ((·.mapError (·.locate position)) <$> tree) >>= fun
      | .ok roll => next roll
      | .error fault => pure (.error fault) := by
  rw [bind_map_left]
  apply bind_congr
  intro result
  cases result <;> rfl

theorem performAll_eq (lexemes : List Lexeme) (roll : Roll) :
    performAll limits lexemes (some roll) =
      (·.map some) <$> fallbacks.applyAll limits lexemes roll := by
  induction lexemes generalizing roll with
  | nil => rfl
  | cons lexeme rest ih =>
    refine (bind_located _ lexeme.position fun next => performAll limits rest (some next)).trans ?_
    rw [applyAll, bind_located, located_apply, map_bind]
    apply bind_congr
    intro result
    cases result with
    | error fault => rfl
    | ok next => exact ih next

theorem performAll_start (first : Lexeme) (rest : List Lexeme) :
    performAll limits (first :: rest) none =
      (fallbacks.start limits first >>= fun
        | .ok roll => (·.map some) <$> fallbacks.applyAll limits rest roll
        | .error fault => pure (.error fault)) := by
  refine (bind_located _ first.position fun next => performAll limits rest (some next)).trans ?_
  rw [start_eq]
  apply bind_congr
  intro result
  cases result with
  | error fault => rfl
  | ok roll => exact performAll_eq rest roll

theorem interpret_eq {input : String} (visible : ¬Blank input.toList) :
    fallbacks.interpret limits input (Scan.ofText input.toList) =
      Notation.interpret limits input (Scan.ofText input.toList) := by
  unfold interpret Notation.interpret
  cases scanned : (Scan.ofText input.toList).stopped with
  | some stop => rfl
  | none =>
    cases lexemes : (Scan.ofText input.toList).lexemes with
    | nil =>
      cases remains : (Scan.ofText input.toList).remainder? with
      | none => exact absurd lexemes (Scan.lexemes_ne_nil visible scanned remains)
      | some remainder =>
        simp only [performAll, Rolling.pure_eq_done, Rolling.done_bind, settle, remains]
        rfl
    | cons first rest =>
      simp only [@performAll_start fallbacks limits first rest, bind_assoc]
      apply bind_congr
      intro result
      cases result with
      | error fault => rfl
      | ok roll =>
        simp only [bind_map_left]
        apply bind_congr
        intro result
        cases result with
        | error fault => rfl
        | ok roll =>
          simp only [Except.map, settle]
          cases (Scan.ofText input.toList).remainder? <;> rfl

theorem evaluate_eq (input : String) :
    fallbacks.evaluate limits input = Notation.evaluate limits input := by
  unfold evaluate Notation.evaluate
  by_cases blank : input.toList.all isBlank = true
  · rw [if_pos blank, if_pos blank]
    rfl
  · rw [if_neg blank, if_neg blank]
    simp only [interpret_eq (mt all_isBlank_iff.2 blank)]

end Fallbacks

end Tabletop.Notation
