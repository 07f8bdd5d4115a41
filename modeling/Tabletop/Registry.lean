import Tabletop.Consulting
import Tabletop.Table

/-! Tables registered under their ids, and rolling on them.

Actions may refer to tables in a circle, so a roll need not end. It is therefore
given a bound on the nesting of tables, and gives no answer where the bound is too
low. -/

set_option autoImplicit false

namespace Tabletop

/-- Tables under keys, no two under one key, in the order they were put there. Nothing but the
operations below makes the key of a table its id. -/
structure Registry (α : Type) where
  entries : List (String × Table α)
  distinct : (entries.map Prod.fst).Nodup

namespace Registry

variable {α : Type}

def empty : Registry α := ⟨[], .nil⟩

instance : Inhabited (Registry α) := ⟨empty⟩

def size (registry : Registry α) : Nat := registry.entries.length

def isEmpty (registry : Registry α) : Bool := registry.entries.isEmpty

def keys (registry : Registry α) : List String := registry.entries.map Prod.fst

def tables (registry : Registry α) : List (Table α) := registry.entries.map Prod.snd

def ids (registry : Registry α) : List String := registry.tables.map Table.id

def contains (registry : Registry α) (id : String) : Bool := registry.keys.contains id

def find? (registry : Registry α) (id : String) : Option (Table α) :=
  (registry.entries.find? fun entry => entry.1 = id).map Prod.snd

theorem find?_eq_none {registry : Registry α} {id : String} :
    registry.find? id = none ↔ id ∉ registry.keys := by
  simp only [find?, Option.map_eq_none_iff, List.find?_eq_none, decide_eq_true_eq, keys,
    List.mem_map]
  exact ⟨fun other ⟨entry, member, same⟩ => other entry member same,
    fun absent entry member same => absent ⟨entry, member, same⟩⟩

theorem mem_keys_iff {registry : Registry α} {id : String} :
    id ∈ registry.keys ↔ ∃ table, registry.find? id = some table := by
  rw [← Option.ne_none_iff_exists', ne_eq, find?_eq_none, Decidable.not_not]

theorem mem_entries_of_find? {registry : Registry α} {id : String} {table : Table α}
    (found : registry.find? id = some table) : (id, table) ∈ registry.entries := by
  obtain ⟨⟨key, _⟩, there, rfl⟩ := Option.map_eq_some_iff.1 found
  obtain rfl : key = id := by simpa using List.find?_some there
  exact List.mem_of_find?_eq_some there

theorem mem_tables_of_find? {registry : Registry α} {id : String} {table : Table α}
    (found : registry.find? id = some table) : table ∈ registry.tables :=
  List.mem_map_of_mem (f := Prod.snd) (mem_entries_of_find? found)

theorem contains_iff {registry : Registry α} {id : String} :
    registry.contains id = true ↔ id ∈ registry.keys :=
  List.contains_iff_mem

def get (registry : Registry α) (id : String) : Except Fault (Table α) :=
  match registry.find? id with
  | some table => .ok table
  | none => .error (.unknownTable id)

def erase (registry : Registry α) (key : String) : Registry α where
  entries := registry.entries.filter fun entry => entry.1 ≠ key
  distinct := registry.distinct.sublist (List.filter_sublist.map Prod.fst)

theorem notMem_keys_erase (registry : Registry α) (key : String) :
    key ∉ (registry.erase key).keys := by
  simp [erase, keys]

def put (registry : Registry α) (key : String) (table : Table α) : Registry α where
  entries := (registry.erase key).entries ++ [(key, table)]
  distinct := by
    rw [List.map_append, List.nodup_append]
    refine ⟨(registry.erase key).distinct, List.pairwise_singleton _ _, ?_⟩
    intro first here second there same
    obtain rfl : first = key := same.trans (List.mem_singleton.1 there)
    exact registry.notMem_keys_erase first here

theorem find?_erase (registry : Registry α) (key id : String) :
    (registry.erase key).find? id = if key = id then none else registry.find? id := by
  split
  · next same =>
    rw [find?_eq_none, ← same]
    exact registry.notMem_keys_erase key
  · next other =>
    simp only [find?, erase, List.find?_filter]
    congr 2
    funext entry
    by_cases same : entry.1 = id <;> simp [same, Ne.symm other]

theorem find?_put (registry : Registry α) (key id : String) (table : Table α) :
    (registry.put key table).find? id = if key = id then some table else registry.find? id := by
  have behind : (registry.put key table).find? id =
      ((registry.erase key).find? id).or (if key = id then some table else none) := by
    simp only [find?, put, List.find?_append, List.find?_singleton, decide_eq_true_eq,
      Option.map_or, apply_ite (Option.map Prod.snd), Option.map_some, Option.map_none]
  rw [behind, find?_erase]
  split
  · exact Option.none_or
  · exact Option.or_none

def insert (registry : Registry α) (table : Table α) : Except Fault Unit × Registry α :=
  if registry.contains table.id then (.error (.duplicateTable table.id), registry)
  else (.ok (), registry.put table.id table)

def remove (registry : Registry α) (id : String) : Except Fault (Table α) × Registry α :=
  (registry.get id, registry.erase id)

def register (registry : Registry α) (table : Table α) :
    Rolling (Except Fault Unit × Registry α) :=
  match registry.insert table with
  | (.ok added, registry) => .note (.registered table.id) (pure (.ok added, registry))
  | (.error fault, registry) =>
    .note (.alreadyRegistered table.id) (pure (.error fault, registry))

/-- Answers what a procedure asks about tables. Rolls on tables are made by `rollOn`, and
without its answer there is none. -/
def serve (registry : Registry α) (rollOn : String → Rolling (Option (Except Fault String)))
    {β : Type} : Consulting β → Rolling (Option β)
  | .done value => .done (some value)
  | .draw below next => .draw below fun answer => registry.serve rollOn (next answer)
  | .note entry next => .note entry (registry.serve rollOn next)
  | .rollOn id next => do
    match ← rollOn id with
    | some answer => registry.serve rollOn (next answer)
    | none => pure none
  | .registered id next => registry.serve rollOn (next (registry.contains id))
  | .tableCount next => registry.serve rollOn (next registry.size)

/-- Rolls on the table of an id, with at most `nesting` tables rolled on one inside the
other. -/
def roll (registry : Registry Action) : (nesting : Nat) → (id : String) →
    Rolling (Option (Except Fault String))
  | nesting, id =>
    match registry.find? id with
    | none => pure (some (.error (.unknownTable id)))
    | some table =>
      match nesting with
      | 0 => pure none
      | inner + 1 => table.roll fun action => registry.serve (registry.roll inner) action

def call (registry : Registry Action) (nesting : Nat) (action : Action) :
    Rolling (Option (Except Fault String)) :=
  registry.serve (registry.roll nesting) action

end Registry

end Tabletop
