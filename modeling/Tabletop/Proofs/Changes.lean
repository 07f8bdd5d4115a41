import Tabletop.Proofs.Bounds
import Tabletop.Proofs.Notation.Turns

/-! Rolls that are changed again and again.

Whatever is done to a roll, it stays a roll of its die, and its sum stays within the
bounds of as many faces. The same is true of what notation evaluates to, since all that
its operations do to a roll is to change it. -/

set_option autoImplicit false

namespace Tabletop

inductive Change where
  | keep (side : Side) (count : Nat)
  | drop (side : Side) (count : Nat)
  | keepValues (set : ValueSet)
  | dropValues (set : ValueSet)
  | explode (targets : ValueSet)
  | explodeWithin (limit : Nat) (targets : ValueSet)
  | reroll

namespace Change

def apply : Change → Roll → Rolling (Except Fault Roll)
  | keep side count, roll => pure (roll.keep count side)
  | drop side count, roll => pure (roll.drop count side)
  | keepValues set, roll => pure (.ok (roll.keepValues set))
  | dropValues set, roll => pure (.ok (roll.dropValues set))
  | explode targets, roll => roll.explode targets Roll.explosionLimit
  | explodeWithin limit targets, roll => roll.explode targets limit
  | reroll, roll => .ok <$> roll.reroll

def make (change : Change) (roll : Roll) : Rolling Roll := do
  match ← change.apply roll with
  | .ok changed => pure changed
  | .error _ => pure roll

def outcomes : List Change → Roll → Rolling (List (Except Fault Roll))
  | [], _ => pure []
  | change :: rest, roll => do
    let outcome ← change.apply roll
    let later ← outcomes rest (outcome.toOption.getD roll)
    pure (outcome :: later)

/-- All that a roll is while the changes are made one after the other, from what it is at first to
what they leave. -/
def history : List Change → Roll → Rolling (List Roll)
  | [], roll => pure [roll]
  | change :: rest, roll => do
    let changed ← change.make roll
    let later ← history rest changed
    pure (roll :: later)

end Change

namespace Roll

variable {die : Die} {roll changed : Roll}

theorem mem_ranked {face : Face} : face ∈ roll.ranked ↔ face ∈ roll.faces :=
  List.mem_mergeSort

/-- A roll of the same die, with no faces but those that were there and those of the die. -/
structure Derives (roll changed : Roll) : Prop where
  die : changed.die = roll.die
  faces : ∀ face ∈ changed.faces, face ∈ roll.faces ∨ face ∈ roll.die.faces

theorem Sound.of_derives (sound : roll.Sound die) (derives : roll.Derives changed) :
    changed.Sound die := by
  obtain ⟨rfl, shown, _⟩ := sound
  obtain ⟨die, faces⟩ := changed
  obtain ⟨rfl, derived⟩ := derives
  exact .of_faces fun face member => (derived face member).elim (shown face) id

theorem Derives.trans {later : Roll} (first : roll.Derives changed)
    (second : changed.Derives later) : roll.Derives later where
  die := second.die.trans first.die
  faces := by
    intro face member
    rcases second.faces face member with old | new
    · exact first.faces face old
    · exact .inr (first.die ▸ new)

theorem Derives.of_subset {faces : List Face} (subset : faces ⊆ roll.faces) :
    roll.Derives { roll with faces := faces } :=
  ⟨rfl, fun _ member => .inl (subset member)⟩

theorem Derives.of_select {count : Nat} {choose : List Face → List Face}
    (subset : choose roll.ranked ⊆ roll.ranked)
    (selected : roll.select count choose = .ok changed) : roll.Derives changed := by
  unfold select at selected
  split at selected
  · cases selected
    exact .of_subset fun face member => mem_ranked.1 (subset member)
  · cases selected

section
variable {σ : Type} [Source σ] {source : σ}

theorem sound_of_shown (count : Nat) : Sound die ⟨die, die.shown source count⟩ :=
  .of_faces fun _ member => Die.mem_faces_of_mem_shown member

theorem Derives.of_explode {targets : ValueSet} {limit : Nat}
    (exploded : ((roll.explode targets limit).run source).value = .ok changed) :
    roll.Derives changed := by
  rcases roll.explode_cases targets limit source with ⟨count, _, stops⟩ | stops
  · cases stops.value.symm.trans exploded
    refine ⟨rfl, fun face member => ?_⟩
    exact (List.mem_append.1 member).imp_right Die.mem_faces_of_mem_shown
  · cases stops.value.symm.trans exploded

theorem derives_reroll (roll : Roll) (source : σ) :
    roll.Derives (roll.reroll.run source).value := by
  rw [run_reroll]
  exact ⟨rfl, fun _ member => .inr (Die.mem_faces_of_mem_shown member)⟩

theorem Derives.of_apply {change : Change}
    (applied : ((change.apply roll).run source).value = .ok changed) : roll.Derives changed := by
  cases change with
  | keep side count =>
    cases side with
    | high => exact .of_select (List.drop_subset _ _) applied
    | low => exact .of_select (List.take_subset _ _) applied
  | drop side count =>
    cases side with
    | high => exact .of_select (List.take_subset _ _) applied
    | low => exact .of_select (List.drop_subset _ _) applied
  | keepValues set | dropValues set =>
    cases applied
    exact .of_subset (List.filter_subset_self _)
  | explode targets => exact .of_explode applied
  | explodeWithin limit targets => exact .of_explode applied
  | reroll =>
    simp only [Change.apply, Rolling.run_map] at applied
    cases applied
    exact derives_reroll roll source

theorem Sound.of_apply {change : Change} (sound : roll.Sound die)
    (applied : ((change.apply roll).run source).value = .ok changed) : changed.Sound die :=
  sound.of_derives (.of_apply applied)

theorem Sound.of_make (change : Change) (sound : roll.Sound die) :
    ((change.make roll).run source).value.Sound die := by
  simp only [Change.make, Rolling.run_bind]
  cases applied : ((change.apply roll).run source).value with
  | ok changed => exact sound.of_apply applied
  | error fault => exact sound

theorem Sound.of_history {changes : List Change} (sound : roll.Sound die) :
    ∀ state ∈ ((Change.history changes roll).run source).value, state.Sound die := by
  induction changes generalizing roll source with
  | nil => exact List.forall_mem_singleton.2 sound
  | cons change rest ih =>
    simp only [Change.history, Rolling.run_bind]
    exact List.forall_mem_cons.2 ⟨sound, ih (sound.of_make change)⟩

end

end Roll

namespace Notation

variable {σ : Type} [Source σ] {limits : Limits}

def Token.change? (limits : Limits) : Token → Option Change
  | .dice _ _ => none
  | .keep side count => some (.keep side count)
  | .drop side count => some (.drop side count)
  | .keepValues values => some (.keepValues (.ofList (values.map Int.ofNat)))
  | .dropValues values => some (.dropValues (.ofList (values.map Int.ofNat)))
  | .explode values => some (.explodeWithin limits.explosion (.ofList (values.map Int.ofNat)))

theorem ok_of_mapError {ε δ α : Type} {result : Except ε α} {report : ε → δ} {value : α}
    (mapped : result.mapError report = .ok value) : result = .ok value := by
  cases result with
  | ok => exact congrArg _ (Except.ok.inj mapped)
  | error => cases mapped

theorem eq_of_narrowed {roll : Roll} {values : List Nat} {set : ValueSet}
    (found : narrowed roll values = .ok set) : set = .ofList (values.map Int.ofNat) := by
  simp only [narrowed] at found
  split at found
  · cases found
  · exact (Except.ok.inj found).symm

theorem selected_of_narrowed {roll after : Roll} {values : List Nat} {select : ValueSet → Roll}
    (selected : (narrowed roll values).map select = .ok after) :
    select (.ofList (values.map Int.ofNat)) = after := by
  cases found : narrowed roll values with
  | ok set =>
    rw [found, eq_of_narrowed found] at selected
    exact Except.ok.inj selected
  | error refusal =>
    rw [found] at selected
    cases selected

theorem apply_of_carried {token : Token} {change : Change} {roll after : Roll} {source : σ}
    (changes : token.change? limits = some change)
    (carried : ((step limits token (some roll)).run source).value = .ok after) :
    ((change.apply roll).run source).value = .ok after := by
  cases token with
  | dice count faces => cases changes
  | keep side count | drop side count =>
    cases changes
    exact ok_of_mapError carried
  | keepValues values | dropValues values =>
    cases changes
    exact congrArg Except.ok (selected_of_narrowed carried)
  | explode values =>
    cases changes
    simp only [step] at carried
    split at carried
    · next set found =>
      rw [Rolling.run_map, eq_of_narrowed found] at carried
      exact ok_of_mapError carried
    · cases carried

/-- The tokens throw dice, and the last that does so throws this die. -/
def LastDie (tokens : List Token) (die : Die) : Prop :=
  ∃ earlier count sides later, tokens = earlier ++ .dice count sides :: later ∧
    (∀ token ∈ later, ¬token.IsDice) ∧ Die.numbered sides = .ok die

theorem die_of_numbered {count sides : Nat} {dice : Dice}
    (made : Die.numbered sides >>= Dice.ofCount count = .ok dice) :
    Die.numbered sides = .ok dice.die := by
  cases numbered : Die.numbered sides with
  | error fault =>
    rw [numbered] at made
    cases made
  | ok die =>
    rw [numbered] at made
    change Dice.ofCount count die = .ok dice at made
    unfold Dice.ofCount at made
    split at made
    · cases made
      rfl
    · cases made

theorem sound_of_dice {count sides : Nat} {before : Option Roll} {source : σ} {after : Roll}
    (carried : ((step limits (.dice count sides) before).run source).value = .ok after) :
    ∃ die, Die.numbered sides = .ok die ∧ after.Sound die := by
  simp only [step] at carried
  split at carried
  · cases carried
  · split at carried
    · next dice made =>
      rw [Rolling.run_map, Dice.run_roll] at carried
      cases carried
      exact ⟨dice.die, die_of_numbered made, Roll.sound_of_shown dice.count⟩
    · cases carried

theorem sound_of_change {token : Token} {before : Option Roll} {source : σ} {after : Roll}
    (other : ¬token.IsDice)
    (carried : ((step limits token before).run source).value = .ok after) :
    ∃ roll, before = some roll ∧ ∀ die, roll.Sound die → after.Sound die := by
  cases before with
  | none =>
    cases token with
    | dice => exact absurd trivial other
    | _ => cases carried
  | some roll =>
    have changes : ∃ change, token.change? limits = some change := by
      cases token with
      | dice => exact absurd trivial other
      | _ => exact ⟨_, rfl⟩
    obtain ⟨change, changes⟩ := changes
    have applied := apply_of_carried changes carried
    exact ⟨roll, rfl, fun die sound => sound.of_apply applied⟩

theorem LastDie.cons {tokens : List Token} {die : Die} (last : LastDie tokens die)
    (token : Token) : LastDie (token :: tokens) die := by
  obtain ⟨earlier, count, sides, later, rfl, others, numbered⟩ := last
  exact ⟨token :: earlier, count, sides, later, rfl, others, numbered⟩

/-- Turns leave a roll of the die thrown last. If they throw none, they leave one of the die that
was there. -/
theorem Turns.sound {before last : Option Roll} {source left : σ} {turns : List Turn} {roll : Roll}
    (turned : Turns limits before source turns last left) (ended : last = some roll) :
    (∃ die, LastDie (turns.map Turn.token) die ∧ roll.Sound die) ∨
      (∀ token ∈ turns.map Turn.token, ¬token.IsDice) ∧
        ∃ first, before = some first ∧ ∀ die, first.Sound die → roll.Sound die := by
  -- Dice in the later turns settle the die; without them this turn does, or it changes the roll.
  induction turned with
  | nil => exact .inr ⟨List.forall_mem_nil _, roll, ended, fun _ sound => sound⟩
  | @cons token before last source left after rest carried _ ih =>
    rcases ih ended with ⟨die, thrown, sound⟩ | ⟨others, first, same, kept⟩
    · exact .inl ⟨die, thrown.cons token, sound⟩
    · cases same
      by_cases dice : token.IsDice
      · cases token with
        | dice count sides =>
          obtain ⟨die, numbered, sound⟩ := sound_of_dice carried
          exact .inl ⟨die, ⟨[], count, sides, _, rfl, others, numbered⟩, kept die sound⟩
        | _ => cases dice
      · obtain ⟨earlier, was, changed⟩ := sound_of_change dice carried
        refine .inr ⟨List.forall_mem_cons.2 ⟨dice, others⟩, earlier, was, ?_⟩
        exact fun die sound => kept die (changed die sound)

theorem sound_of_evaluate {input : String} {source : σ} {roll : Roll}
    (rolled : ((evaluate limits input).run source).value = .ok roll) :
    ∃ die, LastDie ((Scan.ofText input.toList).lexemes.map Lexeme.token) die ∧ roll.Sound die := by
  cases outcome limits input source with
  | evaluated tokens turned value =>
    cases value.symm.trans rolled
    rw [← tokens]
    rcases turned.sound rfl with thrown | ⟨_, _, nothing, _⟩
    · exact thrown
    · cases nothing
  | blank _ value | stopped _ value | refused _ value | unreadable _ _ _ _ value =>
    cases value.symm.trans rolled

end Notation

/-- Dice that are thrown give a roll that is sound and stays so, whatever changes are made to it.
The same holds of any faces of a die, and of what a text evaluates to: a roll of the die that the
text throws last. -/
theorem Roll.sound_throughout {σ : Type} [Source σ] (changes : List Change) (source : σ) :
    (∀ dice : Dice, ∀ state ∈ ((dice.roll >>= Change.history changes).run source).value,
      state.Sound dice.die) ∧
    (∀ roll : Roll, (∀ face ∈ roll.faces, face ∈ roll.die.faces) →
      ∀ state ∈ ((Change.history changes roll).run source).value, state.Sound roll.die) ∧
    ∀ (limits : Notation.Limits) (input : String) (roll : Roll),
      ((Notation.evaluate limits input).run source).value = .ok roll →
      Notation.LastDie ((Notation.Scan.ofText input.toList).lexemes.map Notation.Lexeme.token)
        roll.die ∧
      ∀ left : σ, ∀ state ∈ ((Change.history changes roll).run left).value,
        state.Sound roll.die := by
  refine ⟨?_, ?_, ?_⟩
  · intro dice
    rw [Rolling.run_bind, dice.run_roll]
    exact (sound_of_shown dice.count).of_history
  · intro roll shown
    exact (Sound.of_faces shown).of_history
  · intro limits input roll rolled
    obtain ⟨die, thrown, sound⟩ := Notation.sound_of_evaluate rolled
    obtain rfl := sound.same
    exact ⟨thrown, fun _ => sound.of_history⟩

theorem Roll.sound_throughout_extremes :
    let low : Face := ⟨minValue, "low"⟩
    let high : Face := ⟨maxValue, "high"⟩
    let die : Die := ⟨[low, high], by decide⟩
    let roll : Roll := ⟨die, [low, low, high]⟩
    let changes : List Change := [.keep .high 4, .explodeWithin 1 (.ofList [maxValue]),
      .dropValues (.ofList [minValue]), .reroll]
    let states := ((Change.history changes roll).run (Scripted.ofList [0])).value
    states.map Roll.faces =
        [[low, low, high], [low, low, high], [low, low, high, low], [high], [low]] ∧
      states.map Roll.sum = [-1, -1, minValue, maxValue, minValue] ∧
      ∀ state ∈ states, state.Sound die := by
  intro low high die roll changes states
  obtain ⟨_, sound, _⟩ := sound_throughout changes (Scripted.ofList [0])
  exact ⟨by decide, by decide, sound roll (by decide)⟩

end Tabletop
