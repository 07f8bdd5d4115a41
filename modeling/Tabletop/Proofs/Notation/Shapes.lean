import Tabletop.Proofs.Notation.Turns

/-! Evaluation without faces.

As long as rolls are thrown and selected by rank only, what becomes of their number does not
depend on the faces. The die, the number of faces, the draws and every fault can then be
told from the tokens alone, so they are the same on every source. -/

set_option autoImplicit false

namespace Tabletop

/-- What is known of a roll without its faces. -/
structure Shape where
  die : Die
  size : Nat
  deriving DecidableEq

def Roll.shape (roll : Roll) : Shape := ⟨roll.die, roll.size⟩

@[simp] theorem Roll.size_shape (roll : Roll) : roll.shape.size = roll.size := rfl

theorem error_of_shape {ε : Type} {value : Except ε Roll} {fault : ε}
    (told : value.map Roll.shape = .error fault) : value = .error fault := by
  cases value with
  | error => exact congrArg _ (Except.error.inj told)
  | ok => cases told

theorem roll_of_shape {ε : Type} {value : Except ε Roll} {shape : Shape}
    (told : value.map Roll.shape = .ok shape) : ∃ roll, value = .ok roll ∧ roll.shape = shape := by
  cases value with
  | error => cases told
  | ok roll => exact ⟨roll, rfl, Except.ok.inj told⟩

def Shape.select (shape : Shape) (count left : Nat) (text : String) : Except NotationFault Shape :=
  if shape.size < count then .error (.invalidCount text) else .ok { shape with size := left }

namespace Notation

instance {ν : Type} : DecidablePred (@Operation.IsListed ν)
  | .keepValues _ | .dropValues _ | .explode _ => inferInstanceAs (Decidable True)
  | .dice _ _ | .keep _ _ | .drop _ _ => inferInstanceAs (Decidable False)

/-- The shape that an operation leaves. What an operation does to values in a list depends on the
faces, so there is no such operation here. -/
def reshape (limits : Limits) (text : String) :
    Token → Option Shape → Except NotationFault Shape
  | .dice count faces, _ =>
    match limits.dice? count faces with
    | some dice => .ok ⟨dice.die, count⟩
    | none => .error (.invalidDice text)
  | .keepValues _, _ | .dropValues _, _ | .explode _, _ => .error (.unreadable text)
  | .keep _ _, none | .drop _ _, none => .error (.notDice text)
  | .keep _ count, some shape => shape.select count count text
  | .drop _ count, some shape => shape.select count (shape.size - count) text

def Token.demand (limits : Limits) : Token → List Nat
  | .dice count faces =>
    match limits.dice? count faces with
    | some dice => List.replicate count dice.die.faces.length
    | none => []
  | .keep _ _ | .drop _ _ | .keepValues _ | .dropValues _ | .explode _ => []

def reshapeAll (limits : Limits) :
    List Lexeme → Option Shape → Except NotationFault (Option Shape)
  | [], before => .ok before
  | lexeme :: rest, before =>
    match reshape limits lexeme.text lexeme.token before with
    | .ok shape => reshapeAll limits rest (some shape)
    | .error fault => .error (fault.locate lexeme.position)

def demands (limits : Limits) : List Lexeme → Option Shape → List Nat
  | [], _ => []
  | lexeme :: rest, before =>
    lexeme.token.demand limits ++
      match reshape limits lexeme.text lexeme.token before with
      | .ok shape => demands limits rest (some shape)
      | .error _ => []

/-- What the evaluation of a text comes to, as far as it is known without the faces. -/
def forecast (limits : Limits) (input : String) : Except NotationFault Shape :=
  let scan := Scan.ofText input.toList
  if input.toList.all isBlank then .error (.located 0 .blank)
  else
    match scan.stopped with
    | some (position, fault) => .error (.located position (.number fault))
    | none =>
      match reshapeAll limits scan.lexemes none with
      | .error fault => .error fault
      | .ok final =>
        match scan.remainder?, final with
        | some (position, text), _ => .error (.located position (.unreadable text))
        | none, none => .error (.located 0 (.unreadable (trimmed input)))
        | none, some shape => .ok shape

theorem Limits.count_of_dice? {limits : Limits} {count faces : Nat} {dice : Dice}
    (admitted : limits.dice? count faces = some dice) : dice.count = count := by
  unfold dice? at admitted
  split at admitted
  · rcases numbered_cases count faces with ⟨made, asked, counted⟩ | none | ⟨_, few⟩
    · rw [asked] at admitted
      cases admitted
      exact counted
    · rw [none] at admitted
      cases admitted
    · rw [few] at admitted
      cases admitted
  · cases admitted

theorem shape_select {roll : Roll} {count left : Nat} {choose : List Face → List Face}
    (text : String) (chosen : count ≤ roll.size → (choose roll.ranked).length = left) :
    ((roll.select count choose).mapError fun _ => NotationFault.invalidCount text).map Roll.shape =
      roll.shape.select count left text := by
  unfold Roll.select Shape.select
  rw [roll.size_shape]
  by_cases enough : count ≤ roll.size
  · rw [if_pos enough, if_neg (Nat.not_lt.2 enough)]
    simp [Except.mapError, Except.map, Roll.shape, Roll.size, ← chosen enough]
  · rw [if_neg enough, if_pos (Nat.lt_of_not_le enough)]
    rfl

section
variable {σ : Type} [Source σ] {limits : Limits}

theorem run_perform_unlisted {token : Token} (unlisted : ¬token.IsListed) (text : String)
    (before : Option Roll) (source : σ) :
    let run := (perform limits text token before).run source
    run.value.map Roll.shape = reshape limits text token (before.map Roll.shape) ∧
      run.asked = token.demand limits := by
  cases token with
  | dice count faces =>
    simp only [perform, reshape, Token.demand]
    cases admitted : limits.dice? count faces with
    | none => exact ⟨rfl, rfl⟩
    | some dice =>
      have counted := Limits.count_of_dice? admitted
      simp [Rolling.run_map, Dice.run_roll, Except.map, Roll.shape, Roll.size, counted]
  | keep side count =>
    cases before with
    | none => exact ⟨rfl, rfl⟩
    | some roll =>
      -- Ranking keeps the number of faces, so what is selected can be counted beforehand.
      refine ⟨?_, rfl⟩
      cases side with
      | high =>
        refine shape_select text fun enough => ?_
        rw [List.length_drop, Roll.length_ranked]
        omega
      | low =>
        refine shape_select text fun enough => ?_
        rw [List.length_take, Roll.length_ranked]
        omega
  | drop side count =>
    cases before with
    | none => exact ⟨rfl, rfl⟩
    | some roll =>
      refine ⟨?_, rfl⟩
      cases side with
      | high =>
        refine shape_select text fun enough => ?_
        rw [List.length_take, Roll.length_ranked]
        exact Nat.min_eq_left (Nat.sub_le ..)
      | low =>
        refine shape_select text fun enough => ?_
        rw [List.length_drop, Roll.length_ranked]
        rfl
  | keepValues | dropValues | explode => exact absurd trivial unlisted

theorem run_performAll_unlisted {lexemes : List Lexeme}
    (unlisted : ∀ lexeme ∈ lexemes, ¬lexeme.token.IsListed) (before : Option Roll) (source : σ) :
    let run := (performAll limits lexemes before).run source
    run.value.map (Option.map Roll.shape) =
        reshapeAll limits lexemes (before.map Roll.shape) ∧
      run.asked = demands limits lexemes (before.map Roll.shape) := by
  induction lexemes generalizing before source with
  | nil => exact ⟨rfl, rfl⟩
  | cons lexeme rest ih =>
    obtain ⟨first, later⟩ := List.forall_mem_cons.1 unlisted
    obtain ⟨shaped, asked⟩ := @run_perform_unlisted _ _ limits _ first lexeme.text before source
    simp only [performAll, Rolling.run_bind, reshapeAll, demands, ← shaped, ← asked]
    cases ((perform limits lexeme.text lexeme.token before).run source).value with
    | error fault => exact ⟨rfl, rfl⟩
    | ok roll =>
      obtain ⟨shapes, demanded⟩ :=
        ih later (some roll) ((perform limits lexeme.text lexeme.token before).run source).source
      exact ⟨shapes, congrArg _ demanded⟩

theorem run_evaluate_unlisted {input : String}
    (unlisted : ∀ lexeme ∈ (Scan.ofText input.toList).lexemes, ¬lexeme.token.IsListed)
    (source : σ) :
    let scan := Scan.ofText input.toList
    let run := (evaluate limits input).run source
    run.value.map Roll.shape = forecast limits input ∧
      run.asked = if scan.stopped = none then demands limits scan.lexemes none else [] := by
  intro scan run
  obtain ⟨shaped, asked⟩ := @run_performAll_unlisted _ _ limits _ unlisted none source
  simp only [Option.map_none] at shaped asked
  cases evaluate_ending limits input source with
  | blank blank same =>
    have demanded : demands limits scan.lexemes none = [] := by
      rw [Scan.lexemes_of_blank blank]
      rfl
    simp only [run, same.value, same.asked, forecast, all_isBlank_iff.2 blank, demanded]
    exact ⟨rfl, (ite_self _).symm⟩
  | stopped stopped same =>
    have visible : ¬Blank input.toList := by
      intro blank
      rw [Scan.stopped_of_blank blank] at stopped
      cases stopped
    simp only [run, same.value, same.asked, forecast, mt all_isBlank_iff.1 visible, scan, stopped]
    exact ⟨rfl, rfl⟩
  | failed visible scanned failed same =>
    rw [failed] at shaped
    simp only [run, same.value, same.asked, forecast, mt all_isBlank_iff.1 visible, scan, scanned,
      ← shaped, ← asked]
    exact ⟨rfl, rfl⟩
  | unreadable visible scanned carried remains same =>
    rw [carried] at shaped
    simp only [run, same.value, same.asked, forecast, mt all_isBlank_iff.1 visible, scan, scanned,
      ← shaped, ← asked, remains]
    exact ⟨rfl, rfl⟩
  | evaluated visible scanned carried clean same =>
    rw [carried] at shaped
    simp only [run, same.value, same.asked, forecast, mt all_isBlank_iff.1 visible, scan, scanned,
      ← shaped, ← asked, clean]
    exact ⟨rfl, rfl⟩

end

/-- Without values in lists, a text fails the same way on every two sources, or comes to as many
faces of the same die on both. Which of the two it is, the fault, the die and the number of faces
are all told by the tokens, and the draws are the same. -/
theorem evaluate_forecast {σ τ : Type} [Source σ] [Source τ] {input : String} (limits : Limits)
    (unlisted : ∀ lexeme ∈ (Scan.ofText input.toList).lexemes, ¬lexeme.token.IsListed)
    (first : σ) (second : τ) :
    let one := (evaluate limits input).run first
    let other := (evaluate limits input).run second
    ((∃ fault, forecast limits input = .error fault ∧
        one.value = .error fault ∧ other.value = .error fault) ∨
      ∃ roll again, forecast limits input = .ok ⟨roll.die, roll.size⟩ ∧
        one.value = .ok roll ∧ other.value = .ok again ∧
        again.size = roll.size ∧ again.die = roll.die ∧
        again.lowest = roll.lowest ∧ again.highest = roll.highest) ∧
      other.asked = one.asked ∧ other.draws = one.draws := by
  intro one other
  obtain ⟨shaped, asked⟩ := @run_evaluate_unlisted _ _ limits _ unlisted first
  obtain ⟨reshaped, again_asked⟩ := @run_evaluate_unlisted _ _ limits _ unlisted second
  have same : other.asked = one.asked := again_asked.trans asked.symm
  refine ⟨?_, same, congrArg List.length same⟩
  cases told : forecast limits input with
  | error fault =>
    rw [told] at shaped reshaped
    exact .inl ⟨fault, rfl, error_of_shape shaped, error_of_shape reshaped⟩
  | ok shape =>
    rw [told] at shaped reshaped
    obtain ⟨roll, rolled, rfl⟩ := roll_of_shape shaped
    obtain ⟨again, rolled_again, like⟩ := roll_of_shape reshaped
    have size : again.size = roll.size := congrArg Shape.size like
    have die : again.die = roll.die := congrArg Shape.die like
    refine .inr ⟨roll, again, rfl, rolled, rolled_again, size, die, ?_, ?_⟩
    · rw [Roll.lowest, Roll.lowest, size, die]
    · rw [Roll.highest, Roll.highest, size, die]

theorem evaluate_forecast_anew :
    let run text values := (evaluate .standard text).run (Scripted.ofValues values)
    (∃ roll again, (run "2d4 4d6Kh3Dl1" [1, 1, 6, 2, 5, 1]).value = .ok roll ∧
      (run "2d4 4d6Kh3Dl1" [4, 2, 3]).value = .ok again ∧
      roll.size = 2 ∧ again.size = 2 ∧ roll.die = Die.d6 ∧ again.die = Die.d6) ∧
    (run "4d6Kh3Dl4" [3]).value = .error (.located 6 (.invalidCount "Dl4")) ∧
    (run "4d6Kh3Dl4" [5, 2]).value = .error (.located 6 (.invalidCount "Dl4")) := by
  intro run
  have settled : forecast .standard "2d4 4d6Kh3Dl1" = .ok ⟨Die.d6, 2⟩ := by decide +kernel
  have failed : forecast .standard "4d6Kh3Dl4" = .error (.located 6 (.invalidCount "Dl4")) := by
    decide +kernel
  obtain ⟨alike, _⟩ := evaluate_forecast .standard
    (by decide +kernel : ∀ lexeme ∈ (Scan.ofText "2d4 4d6Kh3Dl1".toList).lexemes,
      ¬lexeme.token.IsListed)
    (Scripted.ofValues [1, 1, 6, 2, 5, 1]) (Scripted.ofValues [4, 2, 3])
  obtain ⟨faulty, _⟩ := evaluate_forecast .standard
    (by decide +kernel : ∀ lexeme ∈ (Scan.ofText "4d6Kh3Dl4".toList).lexemes,
      ¬lexeme.token.IsListed)
    (Scripted.ofValues [3]) (Scripted.ofValues [5, 2])
  rw [settled] at alike
  rw [failed] at faulty
  constructor
  · rcases alike with ⟨_, refused, _⟩ | ⟨roll, again, told, one, other, size, die, _⟩
    · cases refused
    · obtain ⟨same_die, same_size⟩ := Shape.mk.inj (Except.ok.inj told)
      exact ⟨roll, again, one, other, same_size.symm, size.trans same_size.symm,
        same_die.symm, die.trans same_die.symm⟩
  · rcases faulty with ⟨_, told, one, other⟩ | ⟨_, _, told, _⟩
    · cases told
      exact ⟨one, other⟩
    · cases told

end Notation

end Tabletop
