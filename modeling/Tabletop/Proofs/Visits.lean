import Tabletop.Proofs.Bounds
import Tabletop.Proofs.Draws
import Tabletop.Table

/-! Rolls on a table in exact arithmetic.

A visit is what the throws of one roll on a table settle: the values looked up, the texts
these give, and the action that the last of them leads to. What remains is that action,
called on what the throws leave of the source. -/

set_option autoImplicit false

namespace Tabletop

/-- One roll on a table, up to the action it ends on. -/
structure Visit (α σ : Type) where
  table : Table α
  /-- The sum of the dice. -/
  shown : Int
  /-- The value looked up first. -/
  first : Int
  /-- The dice thrown again, if there are any, and their sum. -/
  second : Option (Dice × Int)
  left : σ

/-- The value in the range of the dice that is nearest to an integer of any size. -/
def Dice.nearest (dice : Dice) (exact : Int) : Int :=
  if exact < dice.lowest then dice.lowest
  else if dice.highest < exact then dice.highest
  else exact

def Table.visit {α σ : Type} [Source σ] (table : Table α) (source : σ) : Visit α σ :=
  let thrown := table.dice.roll.run source
  let shown := thrown.value.sum
  let first := table.dice.nearest (shown + table.modifier)
  match table.reroll with
  | none => ⟨table, shown, first, none, thrown.source⟩
  | some reroll =>
    if reroll.values.contains first then
      let again := reroll.dice.roll.run thrown.source
      ⟨table, shown, first, some (reroll.dice, again.value.sum), again.source⟩
    else ⟨table, shown, first, none, thrown.source⟩

namespace Visit

variable {α σ : Type}

def final (visit : Visit α σ) : Int :=
  match visit.second with
  | none => visit.first
  | some (_, sum) => sum

/-- The texts of all items that the values looked up lead to, in the order of the items. -/
def parts (visit : Visit α σ) : List String :=
  (visit.table.items.filter fun item => item.values.contains visit.first).map Item.text ++
    match visit.second with
    | none => []
    | some (_, sum) =>
      (visit.table.items.filter fun item => item.values.contains sum).map Item.text

def action? (visit : Visit α σ) : Option α :=
  (visit.table.items.find? fun item => item.values.contains visit.final).bind Item.action

def draws (visit : Visit α σ) : Nat :=
  visit.table.dice.count +
    match visit.second with
    | none => 0
    | some (dice, _) => dice.count

def asked (visit : Visit α σ) : List Nat :=
  List.replicate visit.table.dice.count visit.table.dice.die.faces.length ++
    match visit.second with
    | none => []
    | some (dice, _) => List.replicate dice.count dice.die.faces.length

def record (visit : Visit α σ) (texts : List String) : Record :=
  .tableRolled visit.table.id visit.shown visit.final ("; ".intercalate texts)

def textWith (visit : Visit α σ) (added : String) : String :=
  "; ".intercalate (visit.parts ++ [added])

/-- What is noted once the action has answered: nothing if it fails. -/
def noted (visit : Visit α σ) : Option (Except Fault String) → List Record
  | some (.ok added) => [visit.record (visit.parts ++ [added])]
  | some (.error _) | none => []

theorem length_asked (visit : Visit α σ) : visit.asked.length = visit.draws := by
  unfold asked draws
  split <;> simp

end Visit

namespace Dice

variable (dice : Dice) {exact : Int}

theorem nearest_eq_clamp (exact : Int) :
    dice.nearest exact = clamp dice.lowest dice.highest exact := by
  have range := dice.lowest_le_highest
  unfold nearest clamp
  split
  · omega
  · split <;> omega

theorem nearest_mem (exact : Int) :
    dice.lowest ≤ dice.nearest exact ∧ dice.nearest exact ≤ dice.highest := by
  have range := dice.lowest_le_highest
  unfold nearest
  split
  · omega
  · split <;> omega

theorem nearest_of_le (below : exact ≤ dice.lowest) : dice.nearest exact = dice.lowest := by
  have range := dice.lowest_le_highest
  unfold nearest
  split
  · rfl
  · split <;> omega

theorem nearest_of_ge (above : dice.highest ≤ exact) : dice.nearest exact = dice.highest := by
  have range := dice.lowest_le_highest
  unfold nearest
  split
  · omega
  · split <;> omega

theorem nearest_of_mem (below : dice.lowest ≤ exact) (above : exact ≤ dice.highest) :
    dice.nearest exact = exact := by
  rw [nearest_eq_clamp, clamp_of_mem below above]

end Dice

namespace Table

variable {α σ : Type} [Source σ] (call : α → Rolling (Option (Except Fault String)))

theorem firstValue_eq (table : Table α) (shown : Int) :
    table.firstValue shown = table.dice.nearest (shown + table.modifier) := by
  rw [table.dice.nearest_eq_clamp]
  exact clamp_saturatingAdd table.dice.minValue_le_lowest table.dice.highest_le_maxValue shown _

theorem run_roll (table : Table α) (source : σ) :
    (table.roll call).run source =
      let visit := table.visit source
      let rest := (table.act call visit.shown visit.final visit.parts).run visit.left
      { rest with asked := visit.asked ++ rest.asked } := by
  unfold roll visit
  rw [Rolling.run_bind, table.dice.run_roll]
  simp only [firstValue_eq]
  generalize Roll.sum _ = shown
  generalize table.dice.nearest _ = first
  cases configured : table.reroll with
  | none =>
    simp [again?, configured, Visit.final, Visit.parts, Visit.asked, textsOf, matching]
  | some reroll =>
    by_cases member : reroll.values.contains first = true
    · simp only [again?, configured, if_pos member]
      rw [Rolling.run_bind, reroll.dice.run_roll]
      simp [Visit.final, Visit.parts, Visit.asked, textsOf, matching]
    · simp [again?, configured, member, Visit.final, Visit.parts, Visit.asked, textsOf, matching]

@[simp] theorem table_visit (table : Table α) (source : σ) : (table.visit source).table = table := by
  unfold visit
  cases table.reroll with
  | none => rfl
  | some reroll => dsimp only; split <;> rfl

theorem first_visit (table : Table α) (source : σ) :
    (table.visit source).first =
      table.dice.nearest ((table.dice.roll.run source).value.sum + table.modifier) := by
  unfold visit
  cases table.reroll with
  | none => rfl
  | some reroll => dsimp only; split <;> rfl

theorem second_visit (table : Table α) (source : σ) :
    (table.visit source).second =
      (table.reroll.filter fun reroll => reroll.values.contains (table.visit source).first).map
        fun reroll =>
          (reroll.dice, (reroll.dice.roll.run (table.dice.roll.run source).source).value.sum) := by
  rw [first_visit]
  unfold visit
  cases table.reroll with
  | none => rfl
  | some reroll =>
    rw [Option.filter_some]
    dsimp only
    split <;> rfl

theorem actionOf?_visit (table : Table α) (source : σ) :
    table.actionOf? (table.visit source).final = (table.visit source).action? := by
  unfold actionOf? matching Visit.action?
  rw [List.head?_filter, table_visit]

theorem item_of_actionOf? {table : Table α} {value : Int} {action : α}
    (acts : table.actionOf? value = some action) :
    ∃ item ∈ table.items, item.action = some action := by
  obtain ⟨item, first, acted⟩ := Option.bind_eq_some_iff.1 acts
  exact ⟨item, (List.mem_filter.1 (List.mem_of_mem_head? first)).1, acted⟩

theorem run_conclude (table : Table α) (texts : List String) (source left : σ) :
    let visit := table.visit source
    (table.conclude visit.shown visit.final texts).run left =
      ⟨some (.ok ("; ".intercalate texts)), left, [], [visit.record texts]⟩ := by
  simp only [Visit.record, table_visit]
  rfl

theorem run_roll_of_quiet {table : Table α} {source : σ}
    (quiet : (table.visit source).action? = none) :
    (table.roll call).run source =
      let visit := table.visit source
      ⟨some (.ok ("; ".intercalate visit.parts)), visit.left, visit.asked,
        [visit.record visit.parts]⟩ := by
  simp only [run_roll, act, actionOf?_visit, quiet, run_conclude, List.append_nil]

theorem run_roll_of_action {table : Table α} {source : σ} {action : α}
    (acts : (table.visit source).action? = some action) :
    (table.roll call).run source =
      let visit := table.visit source
      let acted := (call action).run visit.left
      ⟨acted.value.map (·.map visit.textWith), acted.source, visit.asked ++ acted.asked,
        acted.log ++ visit.noted acted.value⟩ := by
  simp only [run_roll, act, actionOf?_visit, acts, Rolling.run_bind]
  generalize (call action).run (table.visit source).left = acted
  rcases acted with ⟨_ | fault | text, left, asked, log⟩
  · simp [Visit.noted]
  · simp [Visit.noted, Except.map]
  · simp [run_conclude, Visit.noted, Visit.textWith, Except.map]

/-- Whatever actions do, a roll on a table shows the texts of the items that its two throws lead to,
and the text of the action of the first item that the last of them leads to, unless that fails. The
first sum and the modifier are added as integers, of any size, and only then brought into the range
of the dice, which is not empty. The draws are those of the throws and of the action. -/
theorem roll_exact (table : Table α) (source : σ) :
    let run := (table.roll call).run source
    let exact := (table.dice.roll.run source).value.sum + table.modifier
    let visit := table.visit source
    table.dice.lowest ≤ table.dice.highest ∧
    (∀ shown, table.firstValue shown =
      clamp table.dice.lowest table.dice.highest (shown + table.modifier)) ∧
    table.dice.lowest ≤ visit.first ∧ visit.first ≤ table.dice.highest ∧
    (exact ≤ table.dice.lowest → visit.first = table.dice.lowest) ∧
    (table.dice.highest ≤ exact → visit.first = table.dice.highest) ∧
    (table.dice.lowest ≤ exact → exact ≤ table.dice.highest → visit.first = exact) ∧
    visit.second =
      (table.reroll.filter fun reroll => reroll.values.contains visit.first).map (fun reroll =>
        (reroll.dice,
          (reroll.dice.roll.run (table.dice.roll.run source).source).value.sum)) ∧
    visit.parts =
      (table.items.filter fun item => item.values.contains visit.first).map Item.text ++
        (match visit.second with
        | none => []
        | some (_, sum) =>
          (table.items.filter fun item => item.values.contains sum).map Item.text) ∧
    visit.draws = table.dice.count +
      (match visit.second with
      | none => 0
      | some (dice, _) => dice.count) ∧
    (visit.action? = none →
      run.value = some (.ok ("; ".intercalate visit.parts)) ∧
        run.draws = visit.draws ∧ run.source = visit.left) ∧
    ∀ action, visit.action? = some action →
      let acted := (call action).run visit.left
      run.value = acted.value.map (·.map fun added => "; ".intercalate (visit.parts ++ [added])) ∧
        run.draws = visit.draws + acted.draws ∧ run.source = acted.source := by
  intro run exact visit
  have first : visit.first = table.dice.nearest exact := table.first_visit source
  obtain ⟨low, high⟩ := table.dice.nearest_mem exact
  refine ⟨table.dice.lowest_le_highest, ?_, ?_, ?_, ?_, ?_, ?_, table.second_visit source, ?_, ?_,
    ?_, ?_⟩
  · intro shown
    rw [table.firstValue_eq, table.dice.nearest_eq_clamp]
  · rw [first]
    exact low
  · rw [first]
    exact high
  · intro below
    rw [first, table.dice.nearest_of_le below]
  · intro above
    rw [first, table.dice.nearest_of_ge above]
  · intro below above
    rw [first, table.dice.nearest_of_mem below above]
  · rw [Visit.parts, table.table_visit source]
  · rw [Visit.draws, table.table_visit source]
  · intro quiet
    have ran : run = _ := run_roll_of_quiet call quiet
    rw [ran]
    exact ⟨rfl, visit.length_asked, rfl⟩
  · intro action acts
    have ran : run = _ := run_roll_of_action call acts
    rw [ran, ← visit.length_asked]
    exact ⟨rfl, List.length_append, rfl⟩

/-- Items that overlap, a modifier far beyond the range, a second throw, and actions that throw dice
of their own, of which only the first is called. -/
theorem roll_exact_overlapping :
    let high : Item Dice := ⟨.ofList [5, 6], "High", none⟩
    let low : Item Dice := ⟨.ofList [1, 2, 3], "Low", some ⟨2, .d4, by decide⟩⟩
    let middle : Item Dice := ⟨.ofList [3, 4], "Middle", some ⟨3, .d8, by decide⟩⟩
    let again : Reroll := ⟨.ofList [6], ⟨2, .d6, by decide⟩⟩
    let table : Table Dice :=
      ⟨"hoard", ⟨1, .d6, by decide⟩, "", maxValue, some again, [high, low, middle]⟩
    let call (dice : Dice) : Rolling (Option (Except Fault String)) := do
      let roll ← dice.roll
      pure (some (.ok (toString roll.sum ++ " gp")))
    let source := Scripted.ofValues [2, 1, 2, 4, 3]
    let run := (table.roll call).run source
    (table.visit source).first = 6 ∧ (table.visit source).final = 3 ∧
      run.value = some (.ok "High; Low; Middle; 7 gp") ∧ run.draws = 5 ∧
      run.source = ⟨[1, 0, 1, 3, 2], 5⟩ := by
  intro high low middle again table call source run
  obtain ⟨_, _, _, _, _, above, _, _, _, _, _, acted⟩ := table.roll_exact call source
  obtain ⟨value, draws, left⟩ := acted ⟨2, .d4, by decide⟩ (by decide +kernel)
  exact ⟨above (by decide +kernel), by decide +kernel, value.trans (by decide +kernel),
    draws.trans (by decide +kernel), left.trans (by decide +kernel)⟩

end Table

end Tabletop
