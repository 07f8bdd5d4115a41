import Mathlib.Data.Nat.Find
import Tabletop.Proofs.Draws

/-! Where an explosion stops.

Each reroll that shows no target pays for one reroll that was due; each that shows
one pays for the reroll it earns itself. So the rerolls end when as many of them
show no target as were due at first. -/

set_option autoImplicit false

namespace Tabletop.Roll

def misses (targets : ValueSet) (faces : List Face) : Nat :=
  faces.countP fun face => !targets.contains face.value

section
variable {σ : Type} [Source σ] {targets : ValueSet} {die : Die} {source : σ} {due count : Nat}

/-- The least number of rolls of which `due` show no target. -/
def Settles (targets : ValueSet) (die : Die) (source : σ) (due count : Nat) : Prop :=
  misses targets (die.shown source count) = due ∧
    ∀ fewer < count, misses targets (die.shown source fewer) ≠ due

theorem matching_add_misses (die : Die) (targets : ValueSet) (faces : List Face) :
    matching ⟨die, faces⟩ targets + misses targets faces = faces.length := by
  unfold matching misses
  rw [List.length_eq_countP_add_countP fun face => targets.contains face.value]
  simp

theorem misses_shown_succ :
    misses targets (die.shown source (count + 1)) =
      misses targets (die.shown (die.after source 1) count) +
        if targets.contains (die.face source 0).value then 0 else 1 := by
  rw [Die.shown_succ, misses, List.countP_cons]
  cases targets.contains (die.face source 0).value <;> rfl

theorem misses_shown_eq_succ_iff :
    misses targets (die.shown source (count + 1)) = due + 1 ↔
      misses targets (die.shown (die.after source 1) count) =
        if targets.contains (die.face source 0).value then due + 1 else due := by
  rw [misses_shown_succ]
  cases targets.contains (die.face source 0).value <;> simp

theorem exists_settles {limit : Nat}
    (reached : ∃ count ≤ limit, misses targets (die.shown source count) = due) :
    ∃ count ≤ limit, Settles targets die source due count := by
  obtain ⟨count, within, enough⟩ := reached
  have some_count : ∃ count, misses targets (die.shown source count) = due := ⟨count, enough⟩
  refine ⟨Nat.find some_count, ?_, Nat.find_spec some_count, ?_⟩
  · exact Nat.le_trans (Nat.find_min' some_count enough) within
  · intro fewer less
    exact Nat.find_min some_count less

theorem settles_zero : Settles targets die source due 0 ↔ due = 0 := by
  simp [Settles, misses, eq_comm]

theorem settles_succ :
    Settles targets die source (due + 1) (count + 1) ↔
      Settles targets die (die.after source 1)
        (if targets.contains (die.face source 0).value then due + 1 else due) count := by
  unfold Settles
  rw [misses_shown_eq_succ_iff]
  apply and_congr_right
  intro _
  constructor
  · intro least fewer less same
    exact least (fewer + 1) (by omega) (misses_shown_eq_succ_iff.2 same)
  · intro least fewer less same
    -- Without a reroll nothing of what is due is settled.
    cases fewer with
    | zero => simp [misses] at same
    | succ fewer => exact least fewer (by omega) (misses_shown_eq_succ_iff.1 same)

/-- A run that made so many rolls of the die and nothing else of the source. -/
structure Stops (run : Rolling.Run σ (Except Fault Roll)) (die : Die) (source : σ) (count : Nat)
    (value : Except Fault Roll) : Prop where
  value : run.value = value
  draws : run.draws = count
  source : run.source = die.after source count

theorem Stops.roll {run : Rolling.Run σ (Except Fault Roll)} {value : Except Fault Roll}
    (stops : Stops run die (die.after source 1) count value) (log : List Record) :
    Stops { run with asked := die.faces.length :: run.asked, log := log } die source (count + 1)
      value where
  value := stops.value
  draws := congrArg (· + 1) stops.draws
  source := by
    rw [die.after_succ source count]
    exact stops.source

variable {roll : Roll} {limit left : Nat} {added : List Face}

theorem run_explodeOnto_succ :
    (roll.explodeOnto targets limit (left + 1) (due + 1) added).run source =
      let face := roll.die.face source 0
      let rest := (roll.explodeOnto targets limit left
        (if targets.contains face.value then due + 1 else due) (face :: added)).run
          (roll.die.after source 1)
      { rest with
        asked := roll.die.faces.length :: rest.asked
        log := .exploded face :: rest.log } := by
  simp only [explodeOnto, Rolling.run_bind, Die.run_roll, Rolling.run_note]
  rfl

theorem explodeOnto_zero :
    roll.explodeOnto targets limit left 0 added =
      pure (.ok { roll with faces := roll.faces ++ added.reverse }) := by
  cases left <;> rfl

theorem stops_of_settles (settles : Settles targets roll.die source due count)
    (within : count ≤ left) :
    Stops ((roll.explodeOnto targets limit left due added).run source) roll.die source count
      (.ok { roll with faces := roll.faces ++ (added.reverse ++ roll.die.shown source count) }) := by
  -- Each reroll takes one from the number that settles, with what is due then instead.
  induction count generalizing source due left added with
  | zero =>
    have settled := settles_zero.1 settles
    rw [settled, explodeOnto_zero, Die.shown_zero, List.append_nil]
    exact ⟨rfl, rfl, rfl⟩
  | succ count ih =>
    have pending : due ≠ 0 := by
      intro settled
      exact settles.2 0 (by omega) settled.symm
    obtain ⟨due, rfl⟩ := Nat.exists_eq_succ_of_ne_zero pending
    obtain ⟨left, rfl⟩ := Nat.exists_eq_add_of_le' (Nat.lt_of_lt_of_le (Nat.succ_pos count) within)
    have rest := @ih _ _ left (roll.die.face source 0 :: added) (settles_succ.1 settles) (by omega)
    rw [run_explodeOnto_succ, Die.shown_succ]
    simpa using rest.roll _

theorem due_ne_zero {left : Nat}
    (unsettled : ∀ count ≤ left, misses targets (die.shown source count) ≠ due) : due ≠ 0 := by
  intro settled
  exact unsettled 0 (Nat.zero_le left) settled.symm

theorem stops_of_unsettled
    (unsettled : ∀ count ≤ left, misses targets (roll.die.shown source count) ≠ due) :
    Stops ((roll.explodeOnto targets limit left due added).run source) roll.die source left
      (.error (.explosionPending limit)) := by
  -- What is due changes from turn to turn, but it is never nothing.
  induction left generalizing source due added with
  | zero =>
    obtain ⟨due, rfl⟩ := Nat.exists_eq_succ_of_ne_zero (due_ne_zero unsettled)
    exact ⟨rfl, rfl, rfl⟩
  | succ left ih =>
    obtain ⟨due, rfl⟩ := Nat.exists_eq_succ_of_ne_zero (due_ne_zero unsettled)
    rw [run_explodeOnto_succ]
    apply Stops.roll
    apply ih
    intro count within same
    exact unsettled (count + 1) (by omega) (misses_shown_eq_succ_iff.2 same)

theorem explode_cases (roll : Roll) (targets : ValueSet) (limit : Nat) (source : σ) :
    (∃ count ≤ limit, Stops ((roll.explode targets limit).run source) roll.die source count
      (.ok { roll with faces := roll.faces ++ roll.die.shown source count })) ∨
    Stops ((roll.explode targets limit).run source) roll.die source limit
      (.error (.explosionPending limit)) := by
  by_cases reached : ∃ count ≤ limit, misses targets (roll.die.shown source count) = roll.matching targets
  · obtain ⟨count, within, settles⟩ := exists_settles reached
    exact .inl ⟨count, within, stops_of_settles settles within⟩
  · refine .inr (stops_of_unsettled ?_)
    intro count within same
    exact reached ⟨count, within, same⟩

theorem misses_of_all (all : ∀ face ∈ die.faces, targets.contains face.value = true) :
    misses targets (die.shown source count) = 0 := by
  rw [misses, List.countP_eq_zero]
  intro face member
  rw [all face (Die.mem_faces_of_mem_shown member)]
  decide

theorem matching_of_settles (settles : Settles targets roll.die source (roll.matching targets) count) :
    matching { roll with faces := roll.faces ++ roll.die.shown source count } targets = count := by
  have rerolled := matching_add_misses roll.die targets (roll.die.shown source count)
  rw [settles.1, Die.length_shown] at rerolled
  simp only [matching, List.countP_append] at *
  omega

/-- An explosion ends with the first reroll by which as many rerolls show no target as faces of
the roll show one, if the limit admits so many. Otherwise it fails when the limit is reached. -/
theorem explode_stops (roll : Roll) (targets : ValueSet) (limit : Nat) (source : σ) :
    let due := roll.matching targets
    let run := (roll.explode targets limit).run source
    let rerolled count := { roll with faces := roll.faces ++ roll.die.shown source count }
    ((∃ count ≤ limit, misses targets (roll.die.shown source count) = due) →
      ∃ count ≤ limit, Settles targets roll.die source due count ∧
        Stops run roll.die source count (.ok (rerolled count)) ∧
        (rerolled count).matching targets = count) ∧
    ((¬∃ count ≤ limit, misses targets (roll.die.shown source count) = due) →
      Stops run roll.die source limit (.error (.explosionPending limit))) ∧
    (Settles targets roll.die source due limit →
      Stops run roll.die source limit (.ok (rerolled limit))) ∧
    (due = 0 → roll.explode targets limit = pure (.ok roll)) ∧
    ((∀ face ∈ roll.die.faces, targets.contains face.value = true) → 0 < due →
      Stops run roll.die source limit (.error (.explosionPending limit))) := by
  intro due run rerolled
  have settled : ∀ count ≤ limit, Settles targets roll.die source due count →
      Stops run roll.die source count (.ok (rerolled count)) := by
    intro count within settles
    exact stops_of_settles settles within
  refine ⟨?_, ?_, settled limit (Nat.le_refl limit), ?_, ?_⟩
  · intro reached
    obtain ⟨count, within, settles⟩ := exists_settles reached
    exact ⟨count, within, settles, settled count within settles, matching_of_settles settles⟩
  · intro unreached
    apply stops_of_unsettled
    intro count within same
    exact unreached ⟨count, within, same⟩
  · intro none
    rw [explode, show roll.matching targets = 0 from none, explodeOnto_zero]
    simp
  · intro all some_due
    apply stops_of_unsettled
    intro count _ same
    rw [misses_of_all all] at same
    omega

theorem explode_stops_at_limit :
    let roll : Roll := ⟨Die.d6, [.numbered 6, .numbered 2]⟩
    let run limit := (roll.explode (.ofList [6]) limit).run (Scripted.ofValues [6, 3])
    (run 2).value = .ok { roll with faces := roll.faces ++ [.numbered 6, .numbered 3] } ∧
      (run 2).draws = 2 ∧ (run 1).value = .error (.explosionPending 1) ∧ (run 1).draws = 1 := by
  intro roll run
  obtain ⟨_, _, ends, _⟩ := explode_stops roll (.ofList [6]) 2 (Scripted.ofValues [6, 3])
  obtain ⟨_, fails, _⟩ := explode_stops roll (.ofList [6]) 1 (Scripted.ofValues [6, 3])
  have settles := ends ⟨rfl, by decide⟩
  have pending := fails (by decide)
  exact ⟨settles.value, settles.draws, pending.value, pending.draws⟩

end

end Tabletop.Roll
