import Mathlib.Algebra.GroupWithZero.Nat
import Tabletop.Proofs.Visits
import Tabletop.Registry

/-! Chains of rolls on tables that refer to each other.

Where items do nothing but roll on a further table, each roll starts at most one other,
and a roll on a table is a chain of visits. The text is joined on the way back, each text
behind the parts of the visit before it. Since these parts are never empty, that comes to
joining all parts at once. -/

set_option autoImplicit false

namespace Tabletop

def Table.Linked (table : Table Action) : Prop :=
  ∀ item ∈ table.items, ∀ action ∈ item.action, ∃ target, action = .rerollOn target

def Registry.Linked (registry : Registry Action) : Prop :=
  ∀ table ∈ registry.tables, table.Linked

/-- The visits that a roll on the table of an id makes, in the order they start, the id of the
missing table if they end on one, and what they leave of the source. -/
inductive Chain {σ : Type} [Source σ] (registry : Registry Action) :
    String → σ → List (Visit Action σ) → Option String → σ → Prop where
  | missing {id : String} {source : σ} (absent : registry.find? id = none) :
      Chain registry id source [] (some id) source
  | last {id : String} {source : σ} {table : Table Action} (found : registry.find? id = some table)
      (quiet : (table.visit source).action? = none) :
      Chain registry id source [table.visit source] none (table.visit source).left
  | next {id target : String} {source left : σ} {table : Table Action}
      {rest : List (Visit Action σ)} {missing : Option String}
      (found : registry.find? id = some table)
      (acts : (table.visit source).action? = some (.rerollOn target))
      (behind : Chain registry target (table.visit source).left rest missing left) :
      Chain registry id source (table.visit source :: rest) missing left

namespace Visit

variable {α σ : Type}

/-- The parts of the text that visits lead to, one after the other. A last visit without a part
stands for one that is empty. -/
def allParts (visits : List (Visit α σ)) : List String :=
  visits.flatMap parts ++ if visits.getLast?.map parts = some [] then [""] else []

/-- What is noted of visits: the last first, each with the text from it on. -/
def records : List (Visit α σ) → List Record
  | [] => []
  | visit :: rest => records rest ++ [visit.record (allParts (visit :: rest))]

def answer (visits : List (Visit α σ)) : Option String → Except Fault String
  | none => .ok ("; ".intercalate (allParts visits))
  | some id => .error (.unknownTable id)

@[simp] theorem length_records (visits : List (Visit α σ)) :
    (records visits).length = visits.length := by
  induction visits with
  | nil => rfl
  | cons visit rest ih => simp [records, ih]

theorem getElem?_lines (visits : List (Visit α σ)) (number : Nat) :
    ((records visits).map Record.line).reverse[number]? = visits[number]?.map fun visit =>
      (.debug, s!"table {visit.table.id} rolled {visit.shown} -> {visit.final}: " ++
        "; ".intercalate (allParts (visits.drop number))) := by
  induction visits generalizing number with
  | nil => rfl
  | cons visit rest ih =>
    rw [records, List.map_append, List.reverse_append]
    cases number with
    | zero => rfl
    | succ number => exact ih number

theorem level_of_mem_records {visits : List (Visit α σ)} :
    ∀ entry ∈ records visits, entry.level = .debug := by
  induction visits with
  | nil => exact List.forall_mem_nil _
  | cons visit rest ih =>
    exact List.forall_mem_append.2 ⟨ih, List.forall_mem_singleton.2 rfl⟩

theorem length_asked_all (visits : List (Visit α σ)) :
    (visits.flatMap asked).length = (visits.map draws).sum := by
  simp only [List.length_flatMap, length_asked]

theorem allParts_ne_nil {visits : List (Visit α σ)} (some_visit : visits ≠ []) :
    allParts visits ≠ [] := by
  intro nothing
  obtain ⟨parted, closed⟩ := List.append_eq_nil_iff.1 nothing
  have last := List.getLast?_eq_some_getLast some_visit
  have silent := List.flatMap_eq_nil_iff.1 parted _ (List.getLast_mem some_visit)
  rw [last, Option.map_some, silent, if_pos rfl] at closed
  cases closed

theorem allParts_cons (visit : Visit α σ) {rest : List (Visit α σ)} (some_visit : rest ≠ []) :
    allParts (visit :: rest) = visit.parts ++ allParts rest := by
  unfold allParts
  rw [List.flatMap_cons, List.getLast?_cons_of_ne_nil some_visit, List.append_assoc]

theorem intercalate_concat {separator : String} {parts others : List String}
    (some_part : parts ≠ []) (some_other : others ≠ []) :
    separator.intercalate (parts ++ [separator.intercalate others]) =
      separator.intercalate (parts ++ others) := by
  rw [String.intercalate_append_of_ne_nil some_part (List.cons_ne_nil _ _),
    String.intercalate_singleton, String.intercalate_append_of_ne_nil some_part some_other]

theorem text_mem_parts {visit : Visit α σ} {item : Item α} (member : item ∈ visit.table.items)
    (leads : item.values.contains visit.final = true) : item.text ∈ visit.parts := by
  have drawn : item.text ∈
      (visit.table.items.filter fun item => item.values.contains visit.final).map Item.text :=
    List.mem_map_of_mem (List.mem_filter.2 ⟨member, leads⟩)
  unfold final at drawn
  unfold parts
  cases second : visit.second with
  | none => exact List.mem_append_left _ (by simpa only [second] using drawn)
  | some pair => exact List.mem_append_right _ (by simpa only [second] using drawn)

/-- The item that acts gives its text to the visit. -/
theorem parts_ne_nil {visit : Visit α σ} {action : α} (acts : visit.action? = some action) :
    visit.parts ≠ [] := by
  obtain ⟨item, found, _⟩ := Option.bind_eq_some_iff.1 acts
  have leads : item.values.contains visit.final = true := by
    simpa using List.find?_some found
  exact List.ne_nil_of_mem (text_mem_parts (List.mem_of_find?_eq_some found) leads)

theorem joined_single (visit : Visit α σ) :
    "; ".intercalate (allParts [visit]) = "; ".intercalate visit.parts := by
  unfold allParts
  by_cases none : visit.parts = []
  · simp [none]
  · simp [none]

theorem joined_cons {visit : Visit α σ} {action : α} (acts : visit.action? = some action)
    {rest : List (Visit α σ)} (some_visit : rest ≠ []) :
    visit.textWith ("; ".intercalate (allParts rest)) =
      "; ".intercalate (allParts (visit :: rest)) := by
  unfold textWith
  rw [intercalate_concat (parts_ne_nil acts) (allParts_ne_nil some_visit),
    allParts_cons visit some_visit]

theorem record_congr (visit : Visit α σ) {texts others : List String}
    (joined : "; ".intercalate texts = "; ".intercalate others) :
    visit.record texts = visit.record others :=
  congrArg (Record.tableRolled visit.table.id visit.shown visit.final) joined

end Visit

theorem Table.exists_item {α σ : Type} [Source σ] {table : Table α} {source : σ} {action : α}
    (acts : (table.visit source).action? = some action) :
    ∃ item ∈ table.items, item.action = some action := by
  rw [← actionOf?_visit] at acts
  exact item_of_actionOf? acts

namespace Registry

variable {registry : Registry Action} {id : String}

theorem roll_of_absent (absent : registry.find? id = none) (nesting : Nat) :
    registry.roll nesting id = pure (some (.error (.unknownTable id))) := by
  cases nesting <;> simp only [roll, absent]

theorem roll_zero_of_found {table : Table Action} (found : registry.find? id = some table) :
    registry.roll 0 id = pure none := by
  simp only [roll, found]

theorem roll_succ_of_found {table : Table Action} (found : registry.find? id = some table)
    (nesting : Nat) :
    registry.roll (nesting + 1) id = table.roll (registry.call nesting) := by
  simp only [roll, found]
  rfl

theorem call_rerollOn (registry : Registry Action) (nesting : Nat) (id : String) :
    registry.call nesting (.rerollOn id) = registry.roll nesting id := by
  simp only [call, Action.rerollOn, serve]
  conv => rhs; rw [← bind_pure (registry.roll nesting id)]
  apply bind_congr
  intro answer
  cases answer <;> rfl

theorem Linked.target {σ : Type} [Source σ] (linked : registry.Linked) {table : Table Action}
    {source : σ} {action : Action} (found : registry.find? id = some table)
    (acts : (table.visit source).action? = some action) :
    ∃ target, action = .rerollOn target := by
  obtain ⟨item, member, acted⟩ := Table.exists_item acts
  exact linked table (mem_tables_of_find? found) item member action acted

end Registry

namespace Chain

variable {σ : Type} [Source σ] {registry : Registry Action} {id : String} {source left : σ}
  {visits : List (Visit Action σ)} {missing : Option String}

theorem ne_nil (chain : Chain registry id source visits none left) : visits ≠ [] := by
  cases chain <;> exact List.cons_ne_nil _ _

theorem unique {others : List (Visit Action σ)} {other : Option String} {rest : σ}
    (first : Chain registry id source visits missing left)
    (second : Chain registry id source others other rest) :
    visits = others ∧ missing = other ∧ left = rest := by
  induction first generalizing others with
  | missing absent =>
    cases second with
    | missing => exact ⟨rfl, rfl, rfl⟩
    | last found | next found => cases absent.symm.trans found
  | last found quiet =>
    cases second with
    | missing absent => cases absent.symm.trans found
    | last again =>
      cases found.symm.trans again
      exact ⟨rfl, rfl, rfl⟩
    | next again acts =>
      cases found.symm.trans again
      cases quiet.symm.trans acts
  | next found acts _ ih =>
    cases second with
    | missing absent => cases absent.symm.trans found
    | last again quiet =>
      cases found.symm.trans again
      cases quiet.symm.trans acts
    | next again acted behind =>
      cases found.symm.trans again
      cases acts.symm.trans acted
      obtain ⟨rfl, rfl, rfl⟩ := ih behind
      exact ⟨rfl, rfl, rfl⟩

theorem parts_ne_nil (chain : Chain registry id source visits missing left) :
    ∀ visit ∈ visits.dropLast, visit.parts ≠ [] := by
  induction chain with
  | missing | last => exact List.forall_mem_nil _
  | @next id target source left table rest missing found acts _ ih =>
    have first : (table.visit source).parts ≠ [] := Visit.parts_ne_nil acts
    cases rest with
    | nil => exact List.forall_mem_nil _
    | cons second rest => exact List.forall_mem_cons.2 ⟨first, ih⟩

theorem run (chain : Chain registry id source visits missing left) {nesting : Nat}
    (room : visits.length ≤ nesting) :
    (registry.roll nesting id).run source =
      ⟨some (Visit.answer visits missing), left, visits.flatMap Visit.asked,
        if missing = none then Visit.records visits else []⟩ := by
  -- Each visit but the last takes one level of nesting and passes the text on.
  induction chain generalizing nesting with
  | missing absent =>
    rw [Registry.roll_of_absent absent]
    rfl
  | @last id source table found quiet =>
    cases nesting with
    | zero => cases room
    | succ inner =>
      have joined := (table.visit source).joined_single
      rw [Registry.roll_succ_of_found found, Table.run_roll_of_quiet _ quiet]
      simp [Visit.answer, Visit.records, joined, (table.visit source).record_congr joined]
  | @next id target source left table rest missing found acts behind ih =>
    cases nesting with
    | zero => cases room
    | succ inner =>
      have ran := ih (Nat.le_of_succ_le_succ room)
      rw [Registry.roll_succ_of_found found, Table.run_roll_of_action _ acts,
        Registry.call_rerollOn]
      simp only [ran]
      cases missing with
      | some id => simp [Visit.answer, Visit.noted, Except.map]
      | none =>
        have joined := Visit.joined_cons acts behind.ne_nil
        have noted := (table.visit source).record_congr joined
        simp [Visit.answer, Visit.noted, Visit.records, Except.map, joined, noted]

theorem of_returns (linked : registry.Linked) {nesting : Nat} {answer : Except Fault String}
    (returns : ((registry.roll nesting id).run source).value = some answer) :
    ∃ visits missing left, Chain registry id source visits missing left ∧
      visits.length ≤ nesting := by
  induction nesting generalizing id source answer with
  | zero =>
    cases found : registry.find? id with
    | none => exact ⟨[], _, _, .missing found, Nat.le_refl 0⟩
    | some table =>
      rw [Registry.roll_zero_of_found found] at returns
      cases returns
  | succ inner ih =>
    cases found : registry.find? id with
    | none => exact ⟨[], _, _, .missing found, Nat.zero_le _⟩
    | some table =>
      cases acts : (table.visit source).action? with
      | none => exact ⟨_, _, _, .last found acts, Nat.succ_le_succ (Nat.zero_le inner)⟩
      | some action =>
        obtain ⟨target, rfl⟩ := linked.target found acts
        rw [Registry.roll_succ_of_found found, Table.run_roll_of_action _ acts,
          Registry.call_rerollOn] at returns
        obtain ⟨added, behind, _⟩ := Option.map_eq_some_iff.1 returns
        obtain ⟨visits, missing, left, chain, room⟩ := ih behind
        exact ⟨_, _, _, .next found acts chain, Nat.succ_le_succ room⟩

end Chain

/-- A roll on a table that returns is a chain of visits. Its text joins their parts, its draws are
theirs, and a line is written of each, the last first, that ends with the parts from it on; or the
chain ends on a missing table, and nothing is written. -/
theorem Registry.roll_chain {σ : Type} [Source σ] {registry : Registry Action} {nesting : Nat}
    {id : String} {source : σ} {answer : Except Fault String} (linked : registry.Linked)
    (returns : ((registry.roll nesting id).run source).value = some answer) :
    let run := (registry.roll nesting id).run source
    (∃ visits missing left, Chain registry id source visits missing left) ∧
    ∀ visits missing left, Chain registry id source visits missing left →
      (∀ visit ∈ visits.dropLast, visit.parts ≠ []) ∧
      run.source = left ∧ run.draws = (visits.map Visit.draws).sum ∧
      match missing with
      | none =>
        visits ≠ [] ∧ answer = .ok ("; ".intercalate (Visit.allParts visits)) ∧
          run.log = Visit.records visits ∧ run.log.length = visits.length ∧
          (∀ entry ∈ run.log, entry.level = .debug) ∧
          ∀ number, (run.log.map Record.line).reverse[number]? = visits[number]?.map fun visit =>
            (.debug, s!"table {visit.table.id} rolled {visit.shown} -> {visit.final}: " ++
              "; ".intercalate (Visit.allParts (visits.drop number)))
      | some unknown => answer = .error (.unknownTable unknown) ∧ run.log = [] := by
  intro run
  obtain ⟨visits, missing, left, chain, room⟩ := Chain.of_returns linked returns
  refine ⟨⟨visits, missing, left, chain⟩, ?_⟩
  intro others other rest another
  obtain ⟨rfl, rfl, rfl⟩ := chain.unique another
  have ran : run = _ := chain.run room
  have draws : run.draws = (visits.map Visit.draws).sum := by
    rw [ran]
    exact Visit.length_asked_all visits
  have answered : some (Visit.answer visits missing) = some answer := by
    rw [← returns, chain.run room]
  refine ⟨chain.parts_ne_nil, congrArg Rolling.Run.source ran, draws, ?_⟩
  cases missing with
  | none =>
    refine ⟨chain.ne_nil, (Option.some.inj answered).symm, congrArg Rolling.Run.log ran, ?_⟩
    rw [ran]
    exact ⟨Visit.length_records visits, Visit.level_of_mem_records, Visit.getElem?_lines visits⟩
  | some unknown => exact ⟨(Option.some.inj answered).symm, congrArg Rolling.Run.log ran⟩

theorem Registry.roll_chain_again :
    let again : Item Action := ⟨.ofList [1], "Again", some (.rerollOn "parent")⟩
    let done : Item Action := ⟨.ofList [4], "Done", none⟩
    let table : Table Action := ⟨"parent", ⟨1, .d6, by decide⟩, "", 0, none, [again, done]⟩
    let registry : Registry Action := ⟨[("parent", table)], by decide⟩
    let run := (registry.roll 3 "parent").run (Scripted.ofValues [1, 1, 4])
    run.value = some (.ok "Again; Again; Done") ∧ run.draws = 3 ∧
      run.log = [.tableRolled "parent" 4 4 "Done", .tableRolled "parent" 1 1 "Again; Done",
        .tableRolled "parent" 1 1 "Again; Again; Done"] ∧
      (run.log.map Record.line).reverse[1]? =
        some (.debug, "table parent rolled 1 -> 1: Again; Done") := by
  intro again done table registry run
  let source (given : Nat) : Scripted := ⟨[0, 0, 3], given⟩
  have linked : registry.Linked := by
    simp [Linked, Table.Linked, tables, registry, table, again, done]
  have found : registry.find? "parent" = some table := rfl
  have first : table.visit (source 0) = ⟨table, 1, 1, none, source 1⟩ := rfl
  have second : table.visit (source 1) = ⟨table, 1, 1, none, source 2⟩ := rfl
  have third : table.visit (source 2) = ⟨table, 4, 4, none, source 3⟩ := rfl
  have chain : Chain registry "parent" (source 0)
      [table.visit (source 0), table.visit (source 1), table.visit (source 2)] none
      (table.visit (source 2)).left := by
    refine .next found (congrArg Visit.action? first) ?_
    rw [first]
    refine .next found (congrArg Visit.action? second) ?_
    rw [second]
    exact .last found (congrArg Visit.action? third)
  rw [first, second, third] at chain
  have returns := congrArg Rolling.Run.value (chain.run (Nat.le_refl 3))
  obtain ⟨_, chains⟩ := roll_chain linked returns
  obtain ⟨_, _, draws, _, text, log, _, _, lines⟩ := chains _ _ _ chain
  exact ⟨returns, draws, log, lines 1⟩

end Tabletop
