import Mathlib.Data.List.Perm.Basic
import Tabletop.Proofs.Explosion

/-! Explosions as a worklist.

The faces of a roll are active at first. While an active face has a value among the
targets, one such face is removed, and the die is rolled once for a new active face.
Which face is removed is left to a policy. A count of the rerolls due forgets the
faces; it still rolls the die as often and shows the same faces in the end, whatever
the policy. -/

set_option autoImplicit false

namespace Tabletop

structure Worklist where
  active : List Face
  removed : List Face
  deriving DecidableEq

namespace Worklist

def ofRoll (roll : Roll) : Worklist := ⟨roll.faces, []⟩

/-- All the faces held. In the end they are the outcome. -/
def faces (list : Worklist) : List Face := list.removed ++ list.active

abbrev Target (targets : ValueSet) (list : Worklist) : Type :=
  { place : Fin list.active.length // targets.contains list.active[place].value = true }

def Pending (targets : ValueSet) (list : Worklist) : Prop :=
  ∃ face ∈ list.active, targets.contains face.value = true

instance {targets : ValueSet} : DecidablePred (Pending targets) := fun list =>
  List.decidableBEx (fun face : Face => targets.contains face.value = true) list.active

def reroll (list : Worklist) (place : Fin list.active.length) (face : Face) : Worklist where
  active := list.active.eraseIdx place ++ [face]
  removed := list.active[place] :: list.removed

/-- Which of the faces is removed next. The removed faces tell how often the die was rolled and
for what, so a policy may go by all that was done before. -/
abbrev Policy (targets : ValueSet) : Type :=
  (list : Worklist) → list.Pending targets → list.Target targets

def Policy.oldest (targets : ValueSet) : Policy targets := fun _ pending =>
  have some_target := List.findIdx_lt_length_of_exists
    (p := fun face : Face => targets.contains face.value) pending
  ⟨⟨_, some_target⟩, List.findIdx_getElem (w := some_target)⟩

section
variable {σ : Type} [Source σ] {targets : ValueSet} {die : Die} {policy : Policy targets}

/-- The process ends after so many rerolls, having done so much on the source. -/
inductive Ends (die : Die) (policy : Policy targets) :
    Worklist → σ → Nat → Rolling.Run σ Worklist → Prop where
  | settled {list : Worklist} {source : σ} :
      ¬list.Pending targets → Ends die policy list source 0 ⟨list, source, [], []⟩
  | reroll {list : Worklist} {source : σ} {count : Nat} {rest : Rolling.Run σ Worklist}
      (pending : list.Pending targets) :
      Ends die policy (list.reroll (policy list pending).1 (die.roll.run source).value)
        (die.roll.run source).source count rest →
      Ends die policy list source (count + 1)
        { rest with asked := (die.roll.run source).asked ++ rest.asked }

def due (targets : ValueSet) (list : Worklist) : Nat :=
  list.active.countP fun face => targets.contains face.value

theorem due_eq_zero_iff {list : Worklist} : list.due targets = 0 ↔ ¬list.Pending targets := by
  simp [due, Pending, List.countP_eq_zero]

theorem due_reroll (list : Worklist) (target : list.Target targets) (face : Face) :
    ∃ others, list.due targets = others + 1 ∧
      (list.reroll target.1 face).due targets =
        if targets.contains face.value then others + 1 else others := by
  have taken := (List.getElem_cons_eraseIdx_perm target.1.isLt).countP_eq
    fun face => targets.contains face.value
  refine ⟨(list.active.eraseIdx target.1).countP fun face => targets.contains face.value, ?_, ?_⟩
  · rw [due, ← taken]
    exact List.countP_cons_of_pos target.2
  · unfold due reroll
    rw [List.countP_append, List.countP_singleton]
    split <;> rfl

theorem faces_reroll (list : Worklist) (place : Fin list.active.length) (face : Face) :
    (list.reroll place face).faces.Perm (list.faces ++ [face]) := by
  have taken := List.getElem_cons_eraseIdx_perm place.isLt
  calc (list.reroll place face).faces
    _ = list.active[place] :: (list.removed ++ (list.active.eraseIdx place ++ [face])) := rfl
    List.Perm _ (list.removed ++ list.active[place] :: (list.active.eraseIdx place ++ [face])) :=
      List.perm_middle.symm
    List.Perm _ (list.removed ++ (list.active ++ [face])) :=
      (taken.append_right [face]).append_left list.removed
    _ = list.faces ++ [face] := (List.append_assoc _ _ _).symm

theorem Ends.settles {list : Worklist} {source : σ} {count : Nat} {run : Rolling.Run σ Worklist}
    (ends : Ends die policy list source count run) :
    Roll.Settles targets die source (list.due targets) count ∧
      run.draws = count ∧ run.source = die.after source count ∧
      run.value.faces.Perm (list.faces ++ die.shown source count) := by
  induction ends with
  | @settled list source settled =>
    refine ⟨Roll.settles_zero.2 (due_eq_zero_iff.2 settled), rfl, rfl, ?_⟩
    rw [Die.shown_zero, List.append_nil]
  | @reroll list source count rest pending _ ih =>
    rw [die.run_roll] at ih ⊢
    obtain ⟨settles, draws, left, faces⟩ := ih
    obtain ⟨others, due, remaining⟩ := list.due_reroll (policy list pending) (die.face source 0)
    rw [remaining] at settles
    rw [due, die.shown_succ, die.after_succ source count]
    refine ⟨Roll.settles_succ.2 settles, congrArg (· + 1) draws, left, ?_⟩
    simpa using faces.trans ((list.faces_reroll _ _).append_right _)

theorem exists_ends {list : Worklist} {source : σ} {count : Nat}
    (settles : Roll.Settles targets die source (list.due targets) count) :
    ∃ run, Ends die policy list source count run := by
  induction count generalizing list source with
  | zero => exact ⟨_, .settled (due_eq_zero_iff.1 (Roll.settles_zero.1 settles))⟩
  | succ count ih =>
    have pending : list.Pending targets := by
      rw [← not_not (a := list.Pending targets), ← due_eq_zero_iff]
      intro none
      exact settles.2 0 (Nat.succ_pos count) none.symm
    -- The policy chooses among the faces, but what is due then is the same for all of them.
    obtain ⟨others, due, remaining⟩ := list.due_reroll (policy list pending) (die.face source 0)
    rw [due, Roll.settles_succ, ← remaining] at settles
    obtain ⟨run, ends⟩ := ih settles
    exact ⟨_, .reroll pending ends⟩

/-- Whatever the policy, the worklist takes no more rerolls than the limit exactly if the explosion
succeeds, and then both do the same on the source and show the same faces. Otherwise the explosion
fails for the limit. -/
theorem explode_eq_worklist (roll : Roll) (targets : ValueSet) (limit : Nat) (source : σ)
    (policy : Policy targets) :
    let explosion := (roll.explode targets limit).run source
    let Finishes count run := Ends roll.die policy (ofRoll roll) source count run
    ((∃ count ≤ limit, ∃ run, Finishes count run) ↔ ∃ exploded, explosion.value = .ok exploded) ∧
    (∀ count ≤ limit, ∀ run, Finishes count run →
      explosion.draws = count ∧ run.draws = count ∧ explosion.source = run.source ∧
      ∃ exploded, explosion.value = .ok exploded ∧ exploded.die = roll.die ∧
        exploded.faces.Perm run.value.faces) ∧
    ((¬∃ count ≤ limit, ∃ run, Finishes count run) →
      explosion.value = .error (.explosionPending limit)) := by
  intro explosion Finishes
  have due : (ofRoll roll).due targets = roll.matching targets := rfl
  have finished : ∀ count ≤ limit, ∀ run, Finishes count run →
      explosion.draws = count ∧ run.draws = count ∧ explosion.source = run.source ∧
      ∃ exploded, explosion.value = .ok exploded ∧ exploded.die = roll.die ∧
        exploded.faces.Perm run.value.faces := by
    intro count within run ends
    obtain ⟨settles, draws, left, faces⟩ := ends.settles
    rw [due] at settles
    have stops : Roll.Stops explosion roll.die source count _ :=
      Roll.stops_of_settles settles within
    exact ⟨stops.draws, draws, stops.source.trans left.symm, _, stops.value, rfl, faces.symm⟩
  have unfinished : (¬∃ count ≤ limit, ∃ run, Finishes count run) →
      explosion.value = .error (.explosionPending limit) := by
    intro endless
    refine (Roll.stops_of_unsettled ?_).value
    -- If the explosion were settled within the limit, the process would have ended there.
    intro count within enough
    obtain ⟨least, below, settles⟩ := Roll.exists_settles ⟨count, within, enough⟩
    rw [← due] at settles
    exact endless ⟨least, below, exists_ends settles⟩
  refine ⟨⟨?_, ?_⟩, finished, unfinished⟩
  · rintro ⟨count, within, run, ends⟩
    obtain ⟨_, _, _, exploded, value, _⟩ := finished count within run ends
    exact ⟨exploded, value⟩
  · rintro ⟨exploded, value⟩
    by_contra endless
    rw [unfinished endless] at value
    cases value

theorem explode_eq_worklist_oldest :
    let roll : Roll := ⟨Die.d6, [.numbered 6, .numbered 2]⟩
    let Finishes count run := Ends roll.die (.oldest (.ofList [6])) (ofRoll roll)
      (Scripted.ofValues [6, 3]) count run
    (∃ count ≤ 2, ∃ run, Finishes count run) ∧ ¬∃ count ≤ 1, ∃ run, Finishes count run := by
  intro roll Finishes
  have two := explode_eq_worklist roll (.ofList [6]) 2 (Scripted.ofValues [6, 3]) (.oldest _)
  have one := explode_eq_worklist roll (.ofList [6]) 1 (Scripted.ofValues [6, 3]) (.oldest _)
  refine ⟨two.1.2 ⟨_, rfl⟩, ?_⟩
  intro finished
  obtain ⟨exploded, value⟩ := one.1.1 finished
  cases value

end

end Worklist

end Tabletop
