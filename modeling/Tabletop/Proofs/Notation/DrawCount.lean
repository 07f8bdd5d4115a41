import Tabletop.Proofs.Notation.Turns

/-! How often an evaluation draws.

An evaluation is a finite tree of draws, so it ends on every source. The draws are those of
the operations carried out, whatever the source answers. A refused operation adds to them
only if it is an explosion, and then its whole limit. -/

set_option autoImplicit false

namespace Tabletop.Notation

theorem drawn_eq (turns : List Turn) :
    drawn turns = ((turns.map Turn.token).map Token.thrown).sum + (turns.map Turn.added).sum := by
  induction turns with
  | nil => rfl
  | cons turn rest ih =>
    simp only [drawn_cons, Turn.draws, List.map_cons, List.sum_cons, ih]
    omega

theorem allowance_eq (limits : Limits) (token : Token) :
    limits.allowance token =
      limits.dice * (if token.IsDice then 1 else 0) +
        limits.explosion * (if token.IsExplosion then 1 else 0) := by
  cases token <;> simp [Limits.allowance, Operation.IsDice, Operation.IsExplosion]

theorem sum_allowance (limits : Limits) (lexemes : List Lexeme) :
    ((lexemes.map Lexeme.token).map limits.allowance).sum =
      limits.dice * lexemes.countP (·.token.IsDice) +
        limits.explosion * lexemes.countP (·.token.IsExplosion) := by
  induction lexemes with
  | nil => rfl
  | cons lexeme rest ih =>
    simp only [List.map_cons, List.sum_cons, ih, allowance_eq, List.countP_cons, decide_eq_true_eq,
      Nat.mul_add]
    omega

section
variable {σ : Type} [Source σ] {limits : Limits}

/-- What the draws of a run are, by what it comes to. -/
def Accounted (limits : Limits) (lexemes : List Lexeme) (source : σ)
    (run : Rolling.Run σ (Except NotationFault Roll)) : Prop :=
  match run.value with
  | .ok roll =>
    ∃ turns, Turns limits none source turns (some roll) run.source ∧
      turns.map Turn.token = lexemes.map Lexeme.token ∧
      run.draws = ((lexemes.map Lexeme.token).map Token.thrown).sum + (turns.map Turn.added).sum
  | .error (.located position cause) =>
    match cause with
    | .blank | .number _ | .notDice _ => run.draws = 0
    | .unreadable _ =>
      ∃ turns last, Turns limits none source turns last run.source ∧
        turns.map Turn.token = lexemes.map Lexeme.token ∧ run.draws = drawn turns ∧
        (lexemes = [] → run.draws = 0)
    | .invalidDice _ | .invalidCount _ | .coveringSet _ =>
      ∃ turns lexeme refusal, RefusedAt limits lexemes none source turns lexeme refusal ∧
        lexeme.position = position ∧ run.draws = drawn turns
    | .badRoll fault =>
      ∃ turns lexeme refusal, RefusedAt limits lexemes none source turns lexeme refusal ∧
        lexeme.position = position ∧ lexeme.token.IsExplosion ∧
        fault = .explosionPending limits.explosion ∧ run.draws = drawn turns + limits.explosion
    | .located _ _ => False
  | .error _ => False

theorem accounted_of_refused {lexemes : List Lexeme} {lexeme : Lexeme} {turns : List Turn}
    {source : σ} {refusal : Refusal} {run : Rolling.Run σ (Except NotationFault Roll)}
    (value : run.value = .error (.located lexeme.position (refusal.report lexeme.text)))
    (refused : RefusedAt limits lexemes none source turns lexeme refusal)
    (draws : run.draws = drawn turns + refusal.draws) : Accounted limits lexemes source run := by
  rw [Accounted, value]
  obtain ⟨last, meets⟩ := refused.meets
  cases meets with
  | nothingRolled =>
    obtain ⟨rfl, _⟩ := refused.first
    exact draws
  | overLimit | noDice | noDie | tooFew | covering =>
    exact ⟨turns, lexeme, _, refused, rfl, draws⟩
  | pending explosion => exact ⟨turns, lexeme, _, refused, rfl, explosion, rfl, draws⟩

theorem accounted_evaluate (input : String) (source : σ) :
    Accounted limits (Scan.ofText input.toList).lexemes source
      ((evaluate limits input).run source) := by
  cases outcome limits input source with
  | blank _ value draws | stopped _ value draws =>
    rw [Accounted, value]
    exact draws
  | refused refused value draws => exact accounted_of_refused value refused draws
  | unreadable _ _ tokens turned value draws =>
    rw [Accounted, value]
    refine ⟨_, _, turned, tokens, draws, ?_⟩
    -- Without a lexeme there was no turn to take.
    intro none
    rw [none, List.map_nil, List.map_eq_nil_iff] at tokens
    subst tokens
    exact draws
  | evaluated tokens turned value draws =>
    rw [Accounted, value]
    refine ⟨_, turned, tokens, ?_⟩
    rw [← tokens, ← drawn_eq]
    exact draws

theorem Turns.drawn_le {before last : Option Roll} {source left : σ} {turns : List Turn}
    (turned : Turns limits before source turns last left) :
    drawn turns ≤ ((turns.map Turn.token).map limits.allowance).sum := by
  induction turned with
  | nil => exact Nat.le_refl 0
  | cons carried _ ih =>
    rw [drawn_cons]
    exact Nat.add_le_add (draws_of_carried carried).2 ih

theorem RefusedAt.drawn_le {lexemes : List Lexeme} {before : Option Roll} {source : σ}
    {turns : List Turn} {lexeme : Lexeme} {refusal : Refusal}
    (refused : RefusedAt limits lexemes before source turns lexeme refusal) :
    drawn turns + refusal.draws ≤ ((lexemes.map Lexeme.token).map limits.allowance).sum := by
  obtain ⟨rfl, tokens, turned, refused⟩ := refused
  have spent := turned.drawn_le
  have last := (draws_of_refused refused).2.1
  rw [tokens] at spent
  simp only [List.map_append, List.map_cons, List.sum_append, List.sum_cons]
  omega

theorem Outcome.draws_le {text : List Char} {source : σ}
    {run : Rolling.Run σ (Except NotationFault Roll)} (outcome : Outcome limits text source run) :
    run.draws ≤ (((Scan.ofText text).lexemes.map Lexeme.token).map limits.allowance).sum := by
  cases outcome with
  | blank _ _ draws | stopped _ _ draws =>
    rw [draws]
    exact Nat.zero_le _
  | refused refused _ draws =>
    rw [draws]
    exact refused.drawn_le
  | unreadable _ _ tokens turned _ draws | evaluated tokens turned _ draws =>
    rw [draws, ← tokens]
    exact turned.drawn_le

/-- The draws of an evaluation are those of the operations that were carried out, and the whole
limit if an explosion then fails. So they are bounded by the tokens of the text. -/
theorem evaluate_draws (limits : Limits) (input : String) (source : σ) :
    let lexemes := (Scan.ofText input.toList).lexemes
    let run := (evaluate limits input).run source
    Accounted limits lexemes source run ∧
      run.draws ≤ limits.dice * lexemes.countP (·.token.IsDice) +
        limits.explosion * lexemes.countP (·.token.IsExplosion) := by
  intro lexemes run
  refine ⟨accounted_evaluate input source, ?_⟩
  rw [← sum_allowance]
  exact (outcome limits input source).draws_le

theorem evaluate_draws_exploded :
    let run := (evaluate .standard "2d6 X6 Kn6").run (Scripted.ofValues [6, 1, 6, 3])
    let tokens : List Token := [.dice 2 6, .explode [6], .keepValues [6]]
    run.value = .ok ⟨.d6, [.numbered 6, .numbered 6]⟩ ∧
    (∃ turns, Turns .standard none (Scripted.ofValues [6, 1, 6, 3]) turns
        (some ⟨.d6, [.numbered 6, .numbered 6]⟩) run.source ∧
      turns.map Turn.token = tokens ∧ (turns.map Turn.added).sum = 2) ∧
    run.draws = 4 ∧ run.draws ≤ 1000 * 1 + 1000 * 1 := by
  intro run tokens
  obtain ⟨accounted, bounded⟩ :=
    evaluate_draws .standard "2d6 X6 Kn6" (Scripted.ofValues [6, 1, 6, 3])
  have settled : run.value = .ok ⟨.d6, [.numbered 6, .numbered 6]⟩ := by decide +kernel
  have read : (Scan.ofText "2d6 X6 Kn6".toList).lexemes.map Lexeme.token = tokens := by
    decide +kernel
  have drawn : run.draws = 4 := by decide +kernel
  rw [Accounted, settled] at accounted
  obtain ⟨turns, turned, same, draws⟩ := accounted
  rw [read] at same draws
  refine ⟨settled, ⟨turns, turned, same, ?_⟩, drawn, bounded⟩
  have thrown : (tokens.map Token.thrown).sum = 2 := rfl
  have total : run.draws = (tokens.map Token.thrown).sum + (turns.map Turn.added).sum := draws
  omega

end

end Tabletop.Notation
