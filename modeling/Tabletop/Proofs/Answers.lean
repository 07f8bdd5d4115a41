import Tabletop.Proofs.Calls
import Tabletop.Proofs.Reductions

/-! What a source decides by its answers.

A procedure that reduces what it draws sees of an answer only where it falls in the range asked
for. So on two sources it does the same as long as their answers fall in the same places, however
far out of range they are, and all that it draws was there to be drawn. -/

set_option autoImplicit false

namespace Tabletop

namespace Rolling

section
variable {α σ τ : Type} [Source σ] [Source τ] {first : σ} {second : τ} {tree : Rolling α}

def calls (tree : Rolling α) (source : σ) : List Call :=
  Source.calls source (tree.run source).asked

/-- Wherever both runs of the procedure ask for a place below the same bound as their call of the
same number, the answers agree modulo that bound. -/
def Agree (tree : Rolling α) (first : σ) (second : τ) : Prop :=
  ∀ pair ∈ (tree.calls first).zip (tree.calls second),
    pair.1.below = pair.2.below → pair.1.place = pair.2.place

instance : Decidable (tree.Agree first second) :=
  inferInstanceAs (Decidable (∀ pair ∈ _, _))

structure Run.Alike (first : Run σ α) (second : Run τ α) : Prop where
  value : first.value = second.value
  asked : first.asked = second.asked
  log : first.log = second.log
  positive : ∀ below ∈ first.asked, 0 < below

def AlikeOn (first : σ) (second : τ) (tree : Rolling α) : Prop :=
  tree.Agree first second → (tree.run first).Alike (tree.run second)

theorem calls_draw (below : Nat) (next : Nat → Rolling α) (source : σ) :
    (draw below next).calls source =
      let answer := Source.index below source
      ⟨below, answer.1⟩ :: (next answer.1).calls answer.2 := by
  simp only [calls, run_draw, Source.calls]

theorem Reducing.alikeOn (reducing : tree.Reducing) (first : σ) (second : τ) :
    tree.AlikeOn first second := by
  intro agree
  induction reducing generalizing first second with
  | done value => exact ⟨rfl, rfl, rfl, List.forall_mem_nil _⟩
  | @draw below next positive reduced _ ih =>
    simp only [Agree, calls_draw, List.zip_cons_cons, List.forall_mem_cons] at agree
    obtain ⟨same, later⟩ := agree
    -- Both runs ask for the same place here, so the answers agree and lead to one branch.
    have branch : next (Source.index below first).1 = next (Source.index below second).1 :=
      calc next (Source.index below first).1
        _ = next ((Source.index below first).1 % below) := reduced _
        _ = next ((Source.index below second).1 % below) := congrArg next (same trivial)
        _ = next (Source.index below second).1 := (reduced _).symm
    rw [branch] at later
    obtain ⟨value, asked, log, positives⟩ := ih _ _ _ later
    simp only [run_draw, branch]
    exact ⟨value, congrArg _ asked, log, List.forall_mem_cons.2 ⟨positive, positives⟩⟩
  | note _ ih =>
    simp only [Agree, calls, run_note] at agree
    obtain ⟨value, asked, log, positives⟩ := ih _ _ agree
    simp only [run_note]
    exact ⟨value, asked, congrArg _ log, positives⟩

theorem forall₂_mapM {β : Type} {relation : β → α → Prop} {make : β → Rolling α}
    (related : ∀ member (source : σ), relation member ((make member).run source).value)
    (members : List β) (source : σ) :
    List.Forall₂ relation members ((members.mapM make).run source).value := by
  induction members generalizing source with
  | nil => exact .nil
  | cons member rest ih =>
    simp only [List.mapM_cons, run_bind]
    exact .cons (related member source) (ih _)

end

end Rolling

section
variable {σ : Type} [Source σ]

theorem Choices.getElem?_roll {choices : Choices} (some_item : choices.items ≠ []) (source : σ) :
    choices.items[(Source.index choices.items.length source).1 % choices.items.length]? =
      some (choices.roll.run source).value := by
  simp [roll, List.length_pos_iff.2 some_item, Rolling.run_draw]

theorem Roll.derives_of_outcomes {changes : List Change} {roll changed : Roll} {source : σ}
    (changes_to : .ok changed ∈ ((Change.outcomes changes roll).run source).value) :
    roll.Derives changed := by
  induction changes generalizing roll source with
  | nil => cases changes_to
  | cons change rest ih =>
    simp only [Change.outcomes, Rolling.run_bind] at changes_to
    rcases List.mem_cons.1 changes_to with here | later
    · exact .of_apply here.symm
    · cases applied : ((change.apply roll).run source).value with
      | error fault =>
        rw [applied] at later
        exact ih later
      | ok middle =>
        rw [applied] at later
        exact (Derives.of_apply applied).trans (ih later)

theorem Dice.mem_faces_of_roll {dice : Dice} {source : σ} {face : Face}
    (member : face ∈ (dice.roll.run source).value.faces) : face ∈ dice.die.faces := by
  rw [run_roll] at member
  exact Die.mem_faces_of_mem_shown member

theorem Pool.forall₂_roll (pool : Pool) (source : σ) :
    List.Forall₂ (fun dice roll => roll.die = dice.die ∧ roll.size = dice.count ∧
      ∀ face ∈ roll.faces, face ∈ dice.die.faces) pool.groups (pool.roll.run source).value.rolls := by
  simp only [roll, Rolling.run_bind]
  refine Rolling.forall₂_mapM (fun dice source => ⟨?_, ?_, fun _ => Dice.mem_faces_of_roll⟩) _ source
  · rw [Dice.run_roll]
  · simp [Dice.run_roll, Roll.size]

theorem Notation.mem_faces_of_evaluate {limits : Limits} {input : String} {source : σ} {roll : Roll}
    (rolled : ((evaluate limits input).run source).value = .ok roll) :
    ∀ face ∈ roll.faces, face ∈ roll.die.faces := by
  obtain ⟨die, _, sound⟩ := sound_of_evaluate rolled
  obtain rfl := sound.same
  exact sound.faces

end

/-- On sources whose answers agree modulo the bounds asked, everything that draws comes to the same
with the same draws, tables included whose actions only roll on tables. Whatever the answers are,
each falls on a face or an item that is there, and what is rolled shows no faces but those of its
die. -/
theorem runs_alike {σ τ : Type} [Source σ] [Source τ] (first : σ) (second : τ) :
    (∀ limits input, (Notation.evaluate limits input).AlikeOn first second) ∧
    (∀ changes roll, (Change.outcomes changes roll).AlikeOn first second) ∧
    (∀ pool : Pool, pool.roll.AlikeOn first second) ∧
    (∀ choices : Choices, choices.roll.AlikeOn first second) ∧
    (∀ (registry : Registry Action) (nesting : Nat), registry.Linked →
      ∀ table : Table Action, table.Linked →
        (table.roll (registry.call nesting)).AlikeOn first second) ∧
    (∀ (registry : Registry Action) (nesting : Nat), registry.Linked →
      ∀ id : String, (registry.roll nesting id).AlikeOn first second) ∧
    ∀ source : σ,
      (∀ die : Die, die.faces[(Source.index die.faces.length source).1 % die.faces.length]? =
        some (die.roll.run source).value) ∧
      (∀ choices : Choices, choices.items ≠ [] →
        choices.items[(Source.index choices.items.length source).1 % choices.items.length]? =
          some (choices.roll.run source).value) ∧
      (∀ dice : Dice, ∀ face ∈ (dice.roll.run source).value.faces, face ∈ dice.die.faces) ∧
      (∀ pool : Pool, List.Forall₂ (fun dice roll => roll.die = dice.die ∧ roll.size = dice.count ∧
        ∀ face ∈ roll.faces, face ∈ dice.die.faces) pool.groups (pool.roll.run source).value.rolls) ∧
      (∀ changes roll changed, .ok changed ∈ ((Change.outcomes changes roll).run source).value →
        changed.die = roll.die ∧
          ∀ face ∈ changed.faces, face ∈ roll.faces ∨ face ∈ roll.die.faces) ∧
      ∀ limits input roll, ((Notation.evaluate limits input).run source).value = .ok roll →
        ∀ face ∈ roll.faces, face ∈ roll.die.faces := by
  refine ⟨?_, ?_, ?_, ?_, ?_, ?_, ?_⟩
  · exact fun limits input => (Notation.reducing_evaluate limits input).alikeOn first second
  · exact fun changes roll => (Change.reducing_outcomes changes roll).alikeOn first second
  · exact fun pool => pool.reducing_roll.alikeOn first second
  · exact fun choices => choices.reducing_roll.alikeOn first second
  · intro registry nesting linked table acts
    have each := Registry.reducing_call (registry.reducing_roll linked nesting) acts
    exact (Table.reducing_roll each).alikeOn first second
  · intro registry nesting linked id
    exact (registry.reducing_roll linked nesting id).alikeOn first second
  · intro source
    refine ⟨fun die => die.getElem?_roll source, ?_, ?_, fun pool => pool.forall₂_roll source, ?_, ?_⟩
    · exact fun choices some_item => choices.getElem?_roll some_item source
    · exact fun dice face => Dice.mem_faces_of_roll
    · intro changes roll changed made
      obtain ⟨die, faces⟩ := Roll.derives_of_outcomes made
      exact ⟨die, faces⟩
    · exact fun limits input roll => Notation.mem_faces_of_evaluate

/-- Answers that are given whatever is asked, with zeros behind them. -/
structure Dictated where
  answers : List Nat

instance : Source Dictated where
  index _ source := (source.answers.headD 0, ⟨source.answers.tail⟩)

/-- Answers far out of range that fall where those of a script fall. -/
theorem runs_alike_out_of_range :
    let dictated : Dictated := ⟨[11, 6, 601, 2]⟩
    let scripted := Scripted.ofValues [6, 1, 2, 3]
    let again : Item Action := ⟨.ofList [6], "Again", some (.rerollOn "d")⟩
    let done : Item Action := ⟨.ofList [1], "Done", none⟩
    let table : Table Action := ⟨"d", ⟨1, .d6, by decide⟩, "", 0, none, [again, done]⟩
    let registry : Registry Action := ⟨[("d", table)], by decide⟩
    let evaluation := Notation.evaluate .standard "2d6X6"
    evaluation.Agree dictated scripted ∧
      (evaluation.run dictated).value =
        .ok ⟨Die.d6, [.numbered 6, .numbered 1, .numbered 2]⟩ ∧
      (evaluation.run dictated).asked = [6, 6, 6] ∧
      (registry.roll 2 "d").Agree dictated scripted ∧
      ((registry.roll 2 "d").run dictated).value = some (.ok "Again; Done") := by
  intro dictated scripted again done table registry evaluation
  obtain ⟨evaluations, _, _, _, _, rolls, _⟩ := runs_alike dictated scripted
  have agree : evaluation.Agree dictated scripted := by decide +kernel
  have agree_again : (registry.roll 2 "d").Agree dictated scripted := by decide +kernel
  have linked : registry.Linked := by
    simp [Registry.Linked, Table.Linked, Registry.tables, registry, table, again, done]
  have evaluated := evaluations .standard "2d6X6" agree
  have rolled := rolls registry 2 linked "d" agree_again
  exact ⟨agree, evaluated.value.trans (by decide +kernel),
    evaluated.asked.trans (by decide +kernel), agree_again, rolled.value.trans (by decide +kernel)⟩

end Tabletop
