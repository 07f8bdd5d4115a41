import Tabletop.Notation.Evaluate
import Tabletop.Proofs.Explosion
import Tabletop.Proofs.Scripts
import Tabletop.Proofs.ValueSets

/-! Operations that take their values from a list.

Only the set of the values matters. The list is taken if it has fewer distinct values than the
die, and then the die has a face that the list leaves out. So an explosion can always end: each
reroll that shows such a face settles one that was due. -/

set_option autoImplicit false

namespace Tabletop

section
variable {σ : Type} [Source σ] {die : Die} {index : Fin die.faces.length} {source : σ}

/-- However often the die is rolled, the source answers the place of the same face. -/
def Die.Keeps (die : Die) (index : Fin die.faces.length) (source : σ) : Prop :=
  ∀ count, (Source.index die.faces.length (die.after source count)).1 % die.faces.length = index

theorem Die.Keeps.face (keeps : die.Keeps index source) (count : Nat) :
    die.face source count = die.faces.get index := by
  have answer := keeps count
  simp only [Die.face, Die.roll, Rolling.run_draw, Rolling.run_done]
  exact congrArg die.faces.get (Fin.ext answer)

theorem Die.Keeps.shown (keeps : die.Keeps index source) (count : Nat) :
    die.shown source count = List.replicate count (die.faces.get index) := by
  refine List.eq_replicate_iff.2 ⟨die.length_shown source count, ?_⟩
  intro face member
  obtain ⟨place, _, rfl⟩ := List.mem_map.1 member
  exact keeps.face place

theorem Die.keeps_ofList (die : Die) (index : Fin die.faces.length) :
    die.Keeps index (Scripted.ofList [index]) := by
  intro count
  have some_entry : 0 < [(index : Nat)].length := Nat.one_pos
  rw [Scripted.ofList, Scripted.after_of_script die some_entry,
    Scripted.index_entry some_entry die.faces_pos, Nat.mod_mod]
  simp only [List.length_singleton, Nat.mod_one, List.get_eq_getElem, List.getElem_cons_zero]
  exact Nat.mod_eq_of_lt index.isLt

end

namespace Roll

section
variable {σ : Type} [Source σ] {roll : Roll} {targets : ValueSet}
  {index : Fin roll.die.faces.length} {source : σ}

theorem misses_replicate {face : Face} (spared : targets.contains face.value = false)
    (count : Nat) : misses targets (List.replicate count face) = count := by
  rw [misses, List.countP_replicate, spared]
  rfl

theorem explode_of_keeps (spared : targets.contains (roll.die.faces.get index).value = false)
    (keeps : roll.die.Keeps index source) (limit : Nat) :
    ((roll.explode targets limit).run source).value =
      if roll.matching targets ≤ limit then
        .ok { roll with
          faces := roll.faces ++ List.replicate (roll.matching targets) (roll.die.faces.get index) }
      else .error (.explosionPending limit) := by
  have missed : ∀ count, misses targets (roll.die.shown source count) = count := by
    intro count
    rw [keeps.shown, misses_replicate spared]
  split
  · next within =>
    have settles : Settles targets roll.die source (roll.matching targets)
        (roll.matching targets) := by
      refine ⟨missed _, ?_⟩
      intro fewer less
      rw [missed]
      exact Nat.ne_of_lt less
    rw [← keeps.shown]
    exact (stops_of_settles settles within).value
  · next beyond =>
    refine (stops_of_unsettled ?_).value
    intro count within
    rw [missed]
    omega

end

end Roll

namespace Notation

inductive Listing where
  | keep
  | drop
  | explode

namespace Listing

def token (listing : Listing) (values : List Nat) : Token :=
  match listing with
  | .keep => .keepValues values
  | .drop => .dropValues values
  | .explode => .explode values

def carry (listing : Listing) (limits : Limits) (set : ValueSet) (roll : Roll) :
    Rolling (Except NotationFault Roll) :=
  match listing with
  | .keep => pure (.ok (roll.keepValues set))
  | .drop => pure (.ok (roll.dropValues set))
  | .explode => (·.mapError .badRoll) <$> roll.explode set limits.explosion

end Listing

theorem targets_eq (roll : Roll) (values : List Nat) (quoted : String) :
    targets roll values quoted =
      if values.toFinset.card < valueCount roll.die.faces then
        .ok (.ofList (values.map Int.ofNat))
      else .error (.coveringSet quoted) := by
  simp only [targets, Die.distinct, ValueSet.size_ofList_natural, distinctValues_eq]

theorem perform_listed (limits : Limits) (quoted : String) (listing : Listing)
    (values : List Nat) (roll : Roll) :
    perform limits quoted (listing.token values) (some roll) =
      if values.toFinset.card < valueCount roll.die.faces then
        listing.carry limits (.ofList (values.map Int.ofNat)) roll
      else pure (.error (.coveringSet quoted)) := by
  by_cases fewer : values.toFinset.card < valueCount roll.die.faces
  · rw [if_pos fewer]
    cases listing with
    | keep | drop | explode =>
      simp only [Listing.token, perform, targets_eq, if_pos fewer]
      rfl
  · rw [if_neg fewer]
    cases listing with
    | keep | drop | explode =>
      simp only [Listing.token, perform, targets_eq, if_neg fewer, Except.map]

section
variable {σ : Type} [Source σ]

/-- The run is not one of a list refused for its values. -/
def Accepts (run : Rolling.Run σ (Except NotationFault Roll)) : Prop :=
  ∀ quoted, run.value ≠ .error (.coveringSet quoted)

theorem Listing.carry_accepts (listing : Listing) (limits : Limits) (set : ValueSet) (roll : Roll)
    (source : σ) : Accepts ((listing.carry limits set roll).run source) := by
  intro quoted refused
  cases listing with
  | keep | drop => cases refused
  | explode =>
    simp only [carry, Rolling.run_map] at refused
    cases exploded : ((roll.explode set limits.explosion).run source).value with
    | ok _ | error _ =>
      rw [exploded] at refused
      cases refused

theorem accepts_listed (limits : Limits) (quoted : String) (listing : Listing)
    (values : List Nat) (roll : Roll) (source : σ) :
    Accepts ((perform limits quoted (listing.token values) (some roll)).run source) ↔
      values.toFinset.card < valueCount roll.die.faces := by
  rw [perform_listed]
  split
  · next fewer => exact iff_of_true (listing.carry_accepts limits _ roll source) fewer
  · next covering => exact iff_of_false (fun accepts => accepts quoted rfl) covering

/-- Lists of the same values are taken or refused alike, and what is taken does the same. It is
taken if the die has more distinct values. -/
theorem perform_relisted (limits : Limits) (roll : Roll) (listing : Listing)
    {first second : List Nat} (same : ∀ value, value ∈ first ↔ value ∈ second)
    (quoted requoted : String) (source : σ) :
    let one := (perform limits quoted (listing.token first) (some roll)).run source
    let other := (perform limits requoted (listing.token second) (some roll)).run source
    (Accepts one ↔ first.toFinset.card < valueCount roll.die.faces) ∧
    (Accepts one ↔ Accepts other) ∧ (Accepts one → one = other) ∧
    (¬Accepts one → one = ⟨.error (.coveringSet quoted), source, [], []⟩ ∧
      other = ⟨.error (.coveringSet requoted), source, [], []⟩) := by
  intro one other
  have card : first.toFinset.card = second.toFinset.card := by
    congr 1
    ext value
    simp [same]
  have sets : ValueSet.ofList (first.map Int.ofNat) = .ofList (second.map Int.ofNat) := by
    refine ValueSet.ofList_eq_iff.2 fun value => ?_
    simp [same]
  have taken := accepts_listed limits quoted listing first roll source
  have retaken := accepts_listed limits requoted listing second roll source
  rw [← card] at retaken
  refine ⟨taken, taken.trans retaken.symm, ?_, ?_⟩
  · intro accepts
    have fewer := taken.1 accepts
    simp only [one, other, perform_listed, ← card, ← sets, if_pos fewer]
  · intro refused
    have covering : ¬first.toFinset.card < valueCount roll.die.faces := mt taken.2 refused
    simp only [one, other, perform_listed, ← card, if_neg covering]
    exact ⟨rfl, rfl⟩

theorem perform_relisted_explode :
    let roll : Roll := ⟨Die.fate, [⟨1, "[+]"⟩]⟩
    let run values quoted :=
      (perform .standard quoted (.explode values) (some roll)).run (Scripted.ofList [3, 4, 1])
    (∀ value, value ∈ [1, 0, 1] ↔ value ∈ [0, 1]) ∧ Accepts (run [1, 0, 1] "X1,0,1") ∧
      run [1, 0, 1] "X1,0,1" = run [0, 1] "X0,1" ∧ (run [0, 1] "X0,1").draws = 3 := by
  intro roll run
  have same : ∀ value, value ∈ [1, 0, 1] ↔ value ∈ [0, 1] := by
    intro value
    simp only [List.mem_cons, List.not_mem_nil, or_false]
    omega
  obtain ⟨taken, _, alike, _⟩ := perform_relisted .standard roll .explode same "X1,0,1" "X0,1"
    (Scripted.ofList [3, 4, 1])
  have accepts := taken.2 (by decide)
  exact ⟨same, accepts, alike accepts, by decide⟩

theorem matching_ofList (roll : Roll) (values : List Int) :
    roll.matching (.ofList values) = roll.faces.countP fun face => face.value ∈ values := by
  simp only [Roll.matching, ValueSet.contains_ofList, List.contains_eq_mem]

theorem perform_explode_of_keeps (limits : Limits) (quoted : String) {roll : Roll}
    {values : List Nat} (fewer : values.toFinset.card < valueCount roll.die.faces)
    {index : Fin roll.die.faces.length}
    (spared : (roll.die.faces.get index).value ∉ values.map Int.ofNat) {source : σ}
    (keeps : roll.die.Keeps index source) :
    let due := roll.faces.countP fun face => face.value ∈ values.map Int.ofNat
    ((perform limits quoted (.explode values) (some roll)).run source).value =
      if due ≤ limits.explosion then
        .ok { roll with faces := roll.faces ++ List.replicate due (roll.die.faces.get index) }
      else .error (.badRoll (.explosionPending limits.explosion)) := by
  intro due
  have performed := perform_listed limits quoted .explode values roll
  rw [if_pos fewer] at performed
  have missed : (ValueSet.ofList (values.map Int.ofNat)).contains (roll.die.faces.get index).value =
      false := by
    rw [ValueSet.contains_ofList, List.contains_eq_mem]
    exact decide_eq_false spared
  have exploded := Roll.explode_of_keeps missed keeps limits.explosion
  rw [matching_ofList] at exploded
  change ((perform limits quoted (Listing.explode.token values) (some roll)).run source).value = _
  rw [performed]
  simp only [Listing.carry, Rolling.run_map]
  rw [exploded]
  split <;> rfl

/-- A list that is taken leaves out a face of the die. Where the rerolls show only a face it
leaves out, an explosion adds one for each match, and the limit alone can stop it. -/
theorem accepted_spares (limits : Limits) (roll : Roll) (listing : Listing) (values : List Nat)
    (quoted : String) (source : σ)
    (accepts : Accepts ((perform limits quoted (listing.token values) (some roll)).run source)) :
    (∃ face ∈ roll.die.faces, face.value ∉ values.map Int.ofNat) ∧
    ∀ index : Fin roll.die.faces.length,
      (roll.die.faces.get index).value ∉ values.map Int.ofNat →
      ∀ constant : σ, roll.die.Keeps index constant →
        let due := roll.faces.countP fun face => face.value ∈ values.map Int.ofNat
        let run := (perform limits quoted (.explode values) (some roll)).run constant
        ((∃ after, run.value = .ok after) ↔ due ≤ limits.explosion) ∧
        run.value =
          if due ≤ limits.explosion then
            .ok { roll with faces := roll.faces ++ List.replicate due (roll.die.faces.get index) }
          else .error (.badRoll (.explosionPending limits.explosion)) := by
  have fewer := (accepts_listed limits quoted listing values roll source).1 accepts
  refine ⟨?_, ?_⟩
  · apply exists_face_not_mem
    rwa [← ValueSet.size_ofList, ValueSet.size_ofList_natural]
  · intro index spared constant keeps due run
    have value := perform_explode_of_keeps limits quoted fewer spared keeps
    refine ⟨?_, value⟩
    rw [show run.value = _ from value]
    split
    · next within => exact iff_of_true ⟨_, rfl⟩ within
    · next beyond => exact iff_of_false (fun ⟨_, same⟩ => nomatch same) beyond

end

theorem accepted_spares_blank :
    let roll : Roll := ⟨Die.fate, [⟨1, "[+]"⟩, ⟨-1, "[-]"⟩, ⟨0, "[ ]"⟩]⟩
    let run := (perform .standard "X1,0" (.explode [1, 0]) (some roll)).run (Scripted.ofList [0])
    (∃ face ∈ Die.fate.faces, face.value ∉ [1, 0]) ∧
      run.value = .ok { roll with faces := roll.faces ++ List.replicate 2 ⟨-1, "[-]"⟩ } := by
  intro roll run
  have accepts : Accepts run :=
    (accepts_listed .standard "X1,0" .explode [1, 0] roll _).2 (by decide)
  obtain ⟨spared, settled⟩ := accepted_spares .standard roll .explode [1, 0] "X1,0" _ accepts
  let index : Fin Die.fate.faces.length := ⟨0, by decide⟩
  exact ⟨spared, (settled index (by decide) _ (Die.fate.keeps_ofList index)).2⟩

end Notation

end Tabletop
