import Mathlib.Data.Finset.Card
import Mathlib.Logic.Relation
import Tabletop.Proofs.Chains

/-! Tables whose references form no circle.

A roll on a table follows the references between tables, whichever of them the draws
select. From a table to the next, fewer and fewer registered tables are in reach, so a
roll visits no more tables than there are, and it can fail only on one that is missing. -/

set_option autoImplicit false

namespace Tabletop.Registry

variable {registry : Registry Action}

/-- Some item of the table registered as `source` rolls on the table of `target`. -/
def Refers (registry : Registry Action) (source target : String) : Prop :=
  ∃ table, registry.find? source = some table ∧
    ∃ item ∈ table.items, item.action = some (.rerollOn target)

def Reaches (registry : Registry Action) : String → String → Prop :=
  Relation.ReflTransGen registry.Refers

def Acyclic (registry : Registry Action) : Prop :=
  ∀ id, ¬Relation.TransGen (fun source target => registry.Refers source target ∧
    target ∈ registry.keys) id id

theorem Refers.mem_keys {source target : String} (refers : registry.Refers source target) :
    source ∈ registry.keys := by
  obtain ⟨table, found, _⟩ := refers
  exact mem_keys_iff.2 ⟨table, found⟩

theorem path_registered {source target : String}
    (path : Relation.TransGen registry.Refers source target) (member : target ∈ registry.keys) :
    Relation.TransGen (fun source target => registry.Refers source target ∧
      target ∈ registry.keys) source target := by
  induction path with
  | single refers => exact .single ⟨refers, member⟩
  | tail _ refers ih => exact .tail (ih refers.mem_keys) ⟨refers, member⟩

theorem Acyclic.not_path (acyclic : registry.Acyclic) (id : String) :
    ¬Relation.TransGen registry.Refers id id := by
  intro path
  obtain ⟨_, refers, _⟩ := Relation.TransGen.head'_iff.1 path
  exact acyclic id (path_registered path refers.mem_keys)

theorem Acyclic.of_rank (rank : String → Nat)
    (falls : ∀ source target, registry.Refers source target → rank target < rank source) :
    registry.Acyclic := by
  have lower : ∀ source target, Relation.TransGen (fun source target =>
      registry.Refers source target ∧ target ∈ registry.keys) source target →
      rank target < rank source := by
    intro source target path
    induction path with
    | single edge => exact falls _ _ edge.1
    | tail _ edge ih => exact (falls _ _ edge.1).trans ih
  exact fun id circle => lt_irrefl _ (lower id id circle)

open Classical in
noncomputable def inReach (registry : Registry Action) (id : String) : Finset String :=
  registry.keys.toFinset.filter (registry.Reaches id)

theorem card_inReach_le (id : String) : (registry.inReach id).card ≤ registry.size := by
  classical
  calc (registry.inReach id).card
    _ ≤ registry.keys.toFinset.card := Finset.card_filter_le _ _
    _ ≤ registry.keys.length := List.toFinset_card_le _
    _ = registry.size := List.length_map _

theorem inReach_pos {id : String} (member : id ∈ registry.keys) :
    0 < (registry.inReach id).card := by
  classical
  refine Finset.card_pos.2 ⟨id, ?_⟩
  exact Finset.mem_filter.2 ⟨List.mem_toFinset.2 member, .refl⟩

/-- Behind a reference fewer tables are in reach: the one that refers is not among them. -/
theorem Acyclic.card_inReach_lt (acyclic : registry.Acyclic) {source target : String}
    (refers : registry.Refers source target) :
    (registry.inReach target).card < (registry.inReach source).card := by
  classical
  apply Finset.card_lt_card
  refine ⟨?_, ?_⟩
  · intro id member
    obtain ⟨registered, path⟩ := Finset.mem_filter.1 member
    exact Finset.mem_filter.2 ⟨registered, .head refers path⟩
  · intro subset
    have here : source ∈ registry.inReach source :=
      Finset.mem_filter.2 ⟨List.mem_toFinset.2 refers.mem_keys, .refl⟩
    obtain ⟨_, path⟩ := Finset.mem_filter.1 (subset here)
    exact acyclic.not_path source (.head' refers path)

section
variable {σ : Type} [Source σ]

theorem refers_of_action {id target : String} {table : Table Action} {source : σ}
    (found : registry.find? id = some table)
    (acts : (table.visit source).action? = some (.rerollOn target)) :
    registry.Refers id target := by
  obtain ⟨item, member, acted⟩ := Table.exists_item acts
  exact ⟨table, found, item, member, acted⟩

/-- Without circles every id has its chain of visits, no longer than there are tables in reach. -/
theorem exists_chain (linked : registry.Linked) (acyclic : registry.Acyclic) {reach : Nat}
    {id : String} (within : (registry.inReach id).card ≤ reach) (source : σ) :
    ∃ visits missing left, Chain registry id source visits missing left ∧
      visits.length ≤ reach := by
  -- The draws choose the reference, so the tables in reach are counted, whichever it is.
  induction reach generalizing id source with
  | zero =>
    cases found : registry.find? id with
    | none => exact ⟨[], _, _, .missing found, Nat.le_refl 0⟩
    | some table =>
      have some_table := inReach_pos (mem_keys_iff.2 ⟨table, found⟩)
      omega
  | succ reach ih =>
    cases found : registry.find? id with
    | none => exact ⟨[], _, _, .missing found, Nat.zero_le _⟩
    | some table =>
      cases acts : (table.visit source).action? with
      | none => exact ⟨_, _, _, .last found acts, Nat.succ_le_succ (Nat.zero_le reach)⟩
      | some action =>
        obtain ⟨target, rfl⟩ := linked.target found acts
        have fewer := acyclic.card_inReach_lt (refers_of_action found acts)
        obtain ⟨visits, missing, left, chain, room⟩ :=
          ih (by omega : (registry.inReach target).card ≤ reach) (table.visit source).left
        exact ⟨_, _, _, .next found acts chain, Nat.succ_le_succ room⟩

theorem reaches_missing {id : String} {source left : σ} {visits : List (Visit Action σ)}
    {missing : Option String} {unknown : String}
    (chain : Chain registry id source visits missing left) (ended : missing = some unknown) :
    registry.Reaches id unknown ∧ unknown ∉ registry.keys := by
  induction chain with
  | missing absent =>
    cases ended
    exact ⟨.refl, find?_eq_none.1 absent⟩
  | last => cases ended
  | next found acts _ ih =>
    obtain ⟨path, absent⟩ := ih ended
    exact ⟨.head (refers_of_action found acts) path, absent⟩

/-- Without circles a roll on a table returns, with no more tables rolled on inside each other than
are registered. It fails exactly if its chain ends on a missing table, which there is only where
references lead to one. -/
theorem roll_ends (linked : registry.Linked) (acyclic : registry.Acyclic) (id : String)
    (source : σ) :
    ∃ answer,
      (∀ nesting, registry.size ≤ nesting →
        (registry.roll nesting id).run source = (registry.roll registry.size id).run source) ∧
      ((registry.roll registry.size id).run source).value = some answer ∧
      ((∃ text, answer = .ok text) ∨
        ∃ unknown, answer = .error (.unknownTable unknown) ∧ registry.Reaches id unknown ∧
          unknown ∉ registry.keys) ∧
      (∀ unknown, answer = .error (.unknownTable unknown) ↔
        ∃ visits left, Chain registry id source visits (some unknown) left) ∧
      ((∀ other, registry.Reaches id other → other ∈ registry.keys) →
        ∃ text, answer = .ok text) := by
  obtain ⟨visits, missing, left, chain, room⟩ :=
    exists_chain linked acyclic (registry.card_inReach_le id) source
  have settled := chain.run room
  refine ⟨Visit.answer visits missing, ?_, congrArg Rolling.Run.value settled, ?_, ?_, ?_⟩
  · intro nesting more
    exact (chain.run (Nat.le_trans room more)).trans settled.symm
  · cases missing with
    | none => exact .inl ⟨_, rfl⟩
    | some unknown =>
      obtain ⟨path, absent⟩ := reaches_missing chain rfl
      exact .inr ⟨unknown, rfl, path, absent⟩
  · intro unknown
    refine ⟨fun failed => ?_, fun ⟨others, rest, another⟩ => ?_⟩
    · cases missing with
      | none => cases failed
      | some id =>
        cases failed
        exact ⟨visits, left, chain⟩
    · obtain ⟨_, rfl, _⟩ := chain.unique another
      rfl
  · intro complete
    cases missing with
    | none => exact ⟨_, rfl⟩
    | some unknown =>
      obtain ⟨path, absent⟩ := reaches_missing chain rfl
      exact absurd (complete unknown path) absent

theorem roll_ends_travel :
    let turns : Item Action := ⟨.ofList [4, 5, 6], "Weather turns", some (.rerollOn "weather")⟩
    let storm : Item Action := ⟨.ofList [3, 4], "Storm", none⟩
    let travel : Table Action := ⟨"travel", ⟨1, .d6, by decide⟩, "", 0, none, [turns]⟩
    let weather : Table Action := ⟨"weather", ⟨1, .d4, by decide⟩, "", 0, none, [storm]⟩
    let registry : Registry Action := ⟨[("weather", weather), ("travel", travel)], by decide⟩
    (∀ source : Scripted, ∃ text,
      ((registry.roll 2 "travel").run source).value = some (.ok text)) ∧
    ∀ source : Scripted,
      ((registry.roll 2 "sea").run source).value = some (.error (.unknownTable "sea")) := by
  intro turns storm travel weather registry
  have linked : registry.Linked := by
    simp [Linked, Table.Linked, tables, registry, travel, weather, turns, storm]
  have refers : ∀ source target, registry.Refers source target →
      source = "travel" ∧ target = "weather" := by
    rintro source target ⟨table, found, item, member, acts⟩
    have registered : source = "weather" ∧ table = weather ∨
        source = "travel" ∧ table = travel := by
      simpa [registry] using mem_entries_of_find? found
    obtain ⟨rfl, rfl⟩ | ⟨rfl, rfl⟩ := registered
    · obtain rfl := List.mem_singleton.1 member
      cases acts
    · obtain rfl := List.mem_singleton.1 member
      cases acts
      exact ⟨rfl, rfl⟩
  have acyclic : registry.Acyclic := by
    refine .of_rank (fun id => if id = "travel" then 1 else 0) ?_
    intro source target referred
    obtain ⟨rfl, rfl⟩ := refers source target referred
    decide
  have registered : ∀ other, registry.Reaches "travel" other → other ∈ registry.keys := by
    intro other path
    cases path with
    | refl => decide
    | tail _ referred =>
      obtain ⟨_, rfl⟩ := refers _ _ referred
      decide
  refine ⟨fun source => ?_, fun source => ?_⟩
  · obtain ⟨answer, _, returns, _, _, complete⟩ := roll_ends linked acyclic "travel" source
    obtain ⟨text, rfl⟩ := complete registered
    exact ⟨text, returns⟩
  · obtain ⟨answer, _, returns, _, fails, _⟩ := roll_ends linked acyclic "sea" source
    obtain rfl := (fails "sea").2 ⟨[], source, .missing rfl⟩
    exact returns

end

end Tabletop.Registry
