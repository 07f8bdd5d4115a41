import Tabletop.Proofs.Explosion
import Tabletop.Proofs.Notation.Steps

/-! Evaluation under raised limits.

A limit is consulted before dice are thrown and before each reroll, and what it admits is
done as under any other. So two evaluations of a text stay in step until the lower limits
end one of them. -/

set_option autoImplicit false

namespace Tabletop

namespace Roll

theorem run_explodeOnto_raised {σ : Type} [Source σ] {roll exploded : Roll} {targets : ValueSet}
    {limit left due : Nat} {added : List Face} {source : σ} (raised extra : Nat)
    (settled : ((roll.explodeOnto targets limit left due added).run source).value = .ok exploded) :
    (roll.explodeOnto targets raised (left + extra) due added).run source =
      (roll.explodeOnto targets limit left due added).run source := by
  induction left generalizing due added source with
  | zero =>
    cases due with
    | zero => rw [explodeOnto_zero, explodeOnto_zero]
    -- Only here would the raised limit go on, and the lower one has not settled.
    | succ due => cases settled
  | succ left ih =>
    cases due with
    | zero => rw [explodeOnto_zero, explodeOnto_zero]
    | succ due =>
      rw [run_explodeOnto_succ] at settled
      rw [Nat.add_right_comm, run_explodeOnto_succ, run_explodeOnto_succ]
      simp only [ih settled]

theorem run_explode_raised {σ : Type} [Source σ] {roll exploded : Roll} {targets : ValueSet}
    {limit raised : Nat} {source : σ} (le : limit ≤ raised)
    (settled : ((roll.explode targets limit).run source).value = .ok exploded) :
    (roll.explode targets raised).run source = (roll.explode targets limit).run source := by
  obtain ⟨extra, rfl⟩ := Nat.exists_eq_add_of_le le
  exact run_explodeOnto_raised _ extra settled

end Roll

/-- A fault for which a limit may be the reason. -/
inductive NotationFault.Limited : NotationFault → Prop where
  | dice (text : String) : Limited (.invalidDice text)
  | explosion (limit : Nat) : Limited (.badRoll (.explosionPending limit))

namespace Notation

instance : LE Limits where
  le narrow wide :=
    narrow.explosion ≤ wide.explosion ∧ narrow.dice ≤ wide.dice ∧ narrow.faces ≤ wide.faces

instance (narrow wide : Limits) : Decidable (narrow ≤ wide) :=
  inferInstanceAs (Decidable (_ ∧ _ ∧ _))

/-- The second run is the first one, unless that one fails for what may be a limit. -/
def Upholds {σ α : Type} (first second : Rolling.Run σ (Except NotationFault α)) : Prop :=
  (∀ fault, first.value = .error fault → ¬fault.cause.Limited) → second = first

section
variable {σ α β : Type} [Source σ] {narrow wide : Limits} {source : σ}

/-- What follows a procedure is reached by both or by neither, and a fault is passed on with its
cause. -/
theorem Upholds.bind {first second : Rolling (Except NotationFault α)}
    {next behind : Except NotationFault α → Rolling (Except NotationFault β)}
    (start : Upholds (first.run source) (second.run source))
    (passed : ∀ fault, behind (.error fault) = next (.error fault) ∧
      ∃ reported, next (.error fault) = pure (.error reported) ∧ reported.cause = fault.cause)
    (rest : ∀ value left, Upholds ((next (.ok value)).run left) ((behind (.ok value)).run (left : σ))) :
    Upholds ((first >>= next).run source) ((second >>= behind).run source) := by
  intro unlimited
  rw [Rolling.run_bind] at unlimited ⊢
  rw [Rolling.run_bind]
  cases ended : (first.run source).value with
  | error fault =>
    obtain ⟨alike, reported, passes, cause⟩ := passed fault
    simp only [ended, passes] at unlimited
    have same : second.run source = first.run source := by
      apply start
      intro other failed
      cases ended.symm.trans failed
      rw [← cause]
      exact unlimited reported rfl
    simp only [same, ended, alike]
  | ok value =>
    simp only [ended] at unlimited
    have same : second.run source = first.run source := by
      apply start
      intro fault failed
      cases ended.symm.trans failed
    simp only [same, ended, rest value _ unlimited]

theorem dice?_raised (raised : narrow ≤ wide) {count faces : Nat} {dice : Dice}
    (admitted : narrow.dice? count faces = some dice) : wide.dice? count faces = some dice := by
  obtain ⟨_, more_dice, more_faces⟩ := raised
  unfold Limits.dice? at admitted ⊢
  split at admitted
  · next within =>
    rw [if_pos ⟨within.1.trans more_dice, within.2.trans more_faces⟩]
    exact admitted
  · cases admitted

theorem perform_raised (raised : narrow ≤ wide) (text : String) (token : Token)
    (before : Option Roll) (source : σ) :
    Upholds ((perform narrow text token before).run source)
      ((perform wide text token before).run source) := by
  intro unlimited
  cases token with
  | dice count faces =>
    simp only [perform] at unlimited ⊢
    cases admitted : narrow.dice? count faces with
    | some dice => rw [dice?_raised raised admitted]
    | none =>
      rw [admitted] at unlimited
      exact absurd (.dice text) (unlimited _ rfl)
  | keep | drop | keepValues | dropValues => cases before <;> rfl
  | explode values =>
    cases before with
    | none => rfl
    | some roll =>
      simp only [perform] at unlimited ⊢
      cases found : targets roll values text with
      | error fault => rfl
      | ok set =>
        simp only [found, Rolling.run_map] at unlimited ⊢
        rcases roll.explode_cases set narrow.explosion source with ⟨_, _, stops⟩ | stops
        · rw [Roll.run_explode_raised raised.1 stops.value]
        · rw [stops.value] at unlimited
          exact absurd (.explosion _) (unlimited _ rfl)

theorem performAll_raised (raised : narrow ≤ wide) (lexemes : List Lexeme) (before : Option Roll)
    (source : σ) :
    Upholds ((performAll narrow lexemes before).run source)
      ((performAll wide lexemes before).run source) := by
  induction lexemes generalizing before source with
  | nil => exact fun _ => rfl
  | cons lexeme rest ih =>
    refine Upholds.bind (perform_raised raised lexeme.text lexeme.token before source) ?_ ?_
    · intro fault
      exact ⟨rfl, _, rfl, fault.cause_locate lexeme.position⟩
    · intro roll left
      exact ih (some roll) left

theorem interpret_raised (raised : narrow ≤ wide) (input : String) (scan : Scan) (source : σ) :
    Upholds ((interpret narrow input scan).run source) ((interpret wide input scan).run source) := by
  cases stopped : scan.stopped with
  | some stop =>
    simp only [interpret, stopped]
    exact fun _ => rfl
  | none =>
    simp only [interpret, stopped]
    refine Upholds.bind (performAll_raised raised scan.lexemes none source) ?_ ?_
    · exact fun _ => ⟨rfl, _, rfl, rfl⟩
    · exact fun _ _ _ => rfl

theorem upholds_evaluate (raised : narrow ≤ wide) (input : String) (source : σ) :
    Upholds ((evaluate narrow input).run source) ((evaluate wide input).run source) := by
  intro unlimited
  by_cases blank : input.toList.all isBlank = true
  · unfold evaluate
    rw [if_pos blank, if_pos blank]
  · rw [run_evaluate blank] at unlimited ⊢
    rw [run_evaluate blank]
    simp only [interpret_raised raised input _ source unlimited]

/-- A text that comes to a roll comes to the same roll, with the same draws, when limits are raised.
So does one that fails, unless the fault is of a kind that a limit may be the reason for. -/
theorem evaluate_raised {narrow wide : Limits} (raised : narrow ≤ wide) (input : String)
    (source : σ) :
    let first := (evaluate narrow input).run source
    let second := (evaluate wide input).run source
    (∀ roll, first.value = .ok roll → second = first) ∧
    ∀ fault, first.value = .error fault → (∀ text, fault.cause ≠ .invalidDice text) →
      (∀ limit, fault.cause ≠ .badRoll (.explosionPending limit)) → second = first := by
  intro first second
  have upheld : Upholds first second := upholds_evaluate raised input source
  refine ⟨?_, ?_⟩
  · intro roll rolled
    apply upheld
    intro fault failed
    cases rolled.symm.trans failed
  · intro fault failed not_dice not_explosion
    apply upheld
    intro other also limited
    cases failed.symm.trans also
    generalize fault.cause = cause at not_dice not_explosion limited
    cases limited with
    | dice text => exact not_dice text rfl
    | explosion limit => exact not_explosion limit rfl

theorem evaluate_raised_at_limit :
    let narrow : Limits := ⟨2, 2, 6, by decide⟩
    let run limits text := (evaluate limits text).run (Scripted.ofValues [6, 3, 6, 2])
    (run .standard "2d6X6").value =
        .ok ⟨Die.d6, [.numbered 6, .numbered 3, .numbered 6, .numbered 2]⟩ ∧
      (run .standard "2d6X6").draws = 4 ∧
      (run .standard "2d6 Kh3").value = .error (.located 4 (.invalidCount "Kh3")) ∧
      (run narrow "3d6").value = .error (.located 0 (.invalidDice "3d6")) := by
  intro narrow run
  obtain ⟨rolls, _⟩ := evaluate_raised (by decide : narrow ≤ .standard) "2d6X6"
    (Scripted.ofValues [6, 3, 6, 2])
  obtain ⟨_, faults⟩ := evaluate_raised (by decide : narrow ≤ .standard) "2d6 Kh3"
    (Scripted.ofValues [6, 3, 6, 2])
  have rolled : (run narrow "2d6X6").value =
      .ok ⟨Die.d6, [.numbered 6, .numbered 3, .numbered 6, .numbered 2]⟩ := by decide +kernel
  have failed : (run narrow "2d6 Kh3").value = .error (.located 4 (.invalidCount "Kh3")) := by
    decide +kernel
  have same : run .standard "2d6X6" = run narrow "2d6X6" := rolls _ rolled
  have kept : run .standard "2d6 Kh3" = run narrow "2d6 Kh3" :=
    faults _ failed nofun nofun
  rw [same, kept]
  exact ⟨rolled, by decide +kernel, failed, by decide +kernel⟩

end

end Notation

end Tabletop
