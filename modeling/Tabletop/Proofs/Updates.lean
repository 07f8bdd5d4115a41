import Mathlib.Data.Set.Card
import Tabletop.Registry

/-! Registries that tables are added to and removed from.

An update that fails leaves the registry as it was. So the last update of an id that
succeeds settles what is registered under that id, whatever was done to other ids. -/

set_option autoImplicit false

namespace Tabletop

namespace Registry

variable {α : Type} {registry : Registry α} {key id : String} {table : Table α}

theorem eq_of_entries {first second : Registry α} (same : first.entries = second.entries) :
    first = second := by
  cases first
  cases second
  cases same
  rfl

theorem erase_of_absent (absent : key ∉ registry.keys) : registry.erase key = registry := by
  apply eq_of_entries
  refine List.filter_eq_self.2 fun entry member => decide_eq_true ?_
  rintro rfl
  exact absent (List.mem_map_of_mem member)

theorem erase_put (free : key ∉ registry.keys) :
    (registry.put key table).erase key = registry := by
  apply eq_of_entries
  change ((registry.erase key).entries ++ [(key, table)]).filter (fun entry => entry.1 ≠ key) = _
  have kept := congrArg entries (erase_of_absent free)
  rw [kept, List.filter_append]
  change (registry.erase key).entries ++ _ = _
  rw [kept]
  simp

theorem insert_of_free (free : table.id ∉ registry.keys) :
    registry.insert table = (.ok (), registry.put table.id table) :=
  if_neg fun taken => free (contains_iff.1 taken)

theorem insert_of_taken (taken : table.id ∈ registry.keys) :
    registry.insert table = (.error (.duplicateTable table.id), registry) :=
  if_pos (contains_iff.2 taken)

theorem insert_eq_error {fault : Fault} : (registry.insert table).1 = .error fault ↔
    registry.contains table.id = true ∧ fault = .duplicateTable table.id := by
  unfold insert
  split
  · next taken => simp [taken, eq_comm]
  · next free => simp [free]

theorem get_eq_ok_iff : registry.get id = .ok table ↔ registry.find? id = some table := by
  unfold get
  cases registry.find? id <;> simp

theorem contains_eq_false_iff : registry.contains id = false ↔ registry.find? id = none := by
  rw [find?_eq_none, ← contains_iff, Bool.not_eq_true]

theorem remove_eq_error {fault : Fault} : (registry.remove id).1 = .error fault ↔
    registry.contains id = false ∧ fault = .unknownTable id := by
  rw [contains_eq_false_iff]
  simp only [remove, get]
  cases registry.find? id <;> simp [eq_comm]

theorem remove_inserted (added : (registry.insert table).1 = .ok ()) :
    (registry.insert table).2.remove table.id = (.ok table, registry) := by
  have free : table.id ∉ registry.keys := by
    intro taken
    rw [insert_of_taken taken] at added
    cases added
  rw [insert_of_free free, remove, erase_put free, get_eq_ok_iff.2]
  rw [find?_put, if_pos rfl]

theorem register_eq (registry : Registry α) (table : Table α) :
    registry.register table =
      .note (if registry.contains table.id then .alreadyRegistered table.id
        else .registered table.id) (pure (registry.insert table)) := by
  unfold register
  by_cases taken : registry.contains table.id = true
  · rw [insert_of_taken (contains_iff.1 taken), if_pos taken]
  · rw [insert_of_free fun there => taken (contains_iff.2 there), if_neg taken]

def Keyed (registry : Registry α) : Prop := ∀ entry ∈ registry.entries, entry.1 = entry.2.id

theorem Keyed.erase (keyed : registry.Keyed) (key : String) : (registry.erase key).Keyed :=
  fun entry member => keyed entry (List.mem_of_mem_filter member)

theorem Keyed.put (keyed : registry.Keyed) (table : Table α) :
    (registry.put table.id table).Keyed :=
  List.forall_mem_append.2 ⟨keyed.erase table.id, List.forall_mem_singleton.2 rfl⟩

theorem Keyed.keys_eq (keyed : registry.Keyed) : registry.keys = registry.ids := by
  rw [keys, ids, tables, List.map_map]
  exact List.map_congr_left keyed

theorem Keyed.id_eq (keyed : registry.Keyed) (found : registry.find? id = some table) :
    id = table.id :=
  keyed _ (mem_entries_of_find? found)

theorem Keyed.distinct_ids (keyed : registry.Keyed) :
    (registry.tables.map Table.id).Nodup := by
  have keys : registry.keys.Nodup := registry.distinct
  rwa [keyed.keys_eq] at keys

/-- A table is listed exactly if it is the one found under its id, since no other has that id. -/
theorem Keyed.mem_tables_iff (keyed : registry.Keyed) :
    table ∈ registry.tables ↔ registry.find? table.id = some table := by
  refine ⟨fun member => ?_, mem_tables_of_find?⟩
  have registered : table.id ∈ registry.keys := by
    rw [keyed.keys_eq]
    exact List.mem_map_of_mem member
  obtain ⟨found, same⟩ := mem_keys_iff.1 registered
  have one := List.inj_on_of_nodup_map keyed.distinct_ids (mem_tables_of_find? same) member
    (keyed.id_eq same).symm
  rw [same, one]

theorem size_eq_encard (registry : Registry α) :
    {id | registry.contains id = true}.encard = registry.size := by
  classical
  have same : {id | registry.contains id = true} = (registry.keys.toFinset : Set String) := by
    ext id
    simp [contains_iff]
  have distinct : registry.keys.Nodup := registry.distinct
  rw [same, Set.encard_coe_eq_coe_finsetCard, List.toFinset_card_of_nodup distinct]
  simp [keys, size]

end Registry

inductive Update (α : Type) where
  | add (table : Table α)
  | remove (id : String)

namespace Update

variable {α : Type}

def id : Update α → String
  | add table => table.id
  | remove id => id

def left? : Update α → Option (Table α)
  | add table => some table
  | remove _ => none

def make : Update α → Registry α → Except Fault Unit × Registry α
  | add table, registry => registry.insert table
  | remove id, registry => ((registry.remove id).1.map fun _ => (), (registry.remove id).2)

def makeAll (updates : List (Update α)) (registry : Registry α) : Registry α :=
  updates.foldl (fun registry update => (update.make registry).2) registry

def successes : List (Update α) → Registry α → List (Update α)
  | [], _ => []
  | update :: rest, registry =>
    match update.make registry with
    | (.ok _, updated) => update :: successes rest updated
    | (.error _, updated) => successes rest updated

/-- The last update of an id that succeeds. -/
def last? (updates : List (Update α)) (registry : Registry α) (id : String) :
    Option (Update α) :=
  (successes updates registry).reverse.find? fun update => update.id = id

variable {update : Update α} {registry : Registry α} {fault : Fault}

theorem make_of_error (failed : (update.make registry).1 = .error fault) :
    (update.make registry).2 = registry := by
  cases update with
  | add table =>
    obtain ⟨taken, _⟩ := Registry.insert_eq_error.1 failed
    simp only [make, Registry.insert_of_taken (Registry.contains_iff.1 taken)]
  | remove id =>
    cases removed : (registry.remove id).1 with
    | ok table =>
      simp only [make, removed] at failed
      cases failed
    | error reason =>
      obtain ⟨absent, _⟩ := Registry.remove_eq_error.1 removed
      rw [Registry.contains_eq_false_iff, Registry.find?_eq_none] at absent
      exact Registry.erase_of_absent absent

theorem find?_of_ok (made : (update.make registry).1 = .ok ()) (id : String) :
    (update.make registry).2.find? id =
      if update.id = id then update.left? else registry.find? id := by
  cases update with
  | add table =>
    by_cases taken : table.id ∈ registry.keys
    · simp only [make, Registry.insert_of_taken taken] at made
      cases made
    · simp only [make, Registry.insert_of_free taken]
      exact registry.find?_put table.id id table
  | remove removed => exact registry.find?_erase removed id

theorem last?_cons_of_ok {rest : List (Update α)} (made : (update.make registry).1 = .ok ())
    (id : String) :
    last? (update :: rest) registry id =
      (last? rest (update.make registry).2 id).or (if update.id = id then some update else none) := by
  have both : update.make registry = (.ok (), (update.make registry).2) := by rw [← made]
  rw [last?, successes, both]
  simp only [last?, List.reverse_cons, List.find?_append, List.find?_singleton,
    decide_eq_true_eq]

theorem last?_cons_of_error {rest : List (Update α)}
    (failed : (update.make registry).1 = .error fault) (id : String) :
    last? (update :: rest) registry id = last? rest registry id := by
  have both : update.make registry = (.error fault, registry) :=
    Prod.ext failed (make_of_error failed)
  rw [last?, successes, both]
  rfl

theorem find?_makeAll (updates : List (Update α)) (registry : Registry α) (id : String) :
    (makeAll updates registry).find? id =
      match last? updates registry id with
      | some update => update.left?
      | none => registry.find? id := by
  induction updates generalizing registry with
  | nil => rfl
  | cons update rest ih =>
    change (makeAll rest (update.make registry).2).find? id = _
    cases made : (update.make registry).1 with
    | error fault => rw [make_of_error made, last?_cons_of_error made, ih]
    | ok =>
      rw [last?_cons_of_ok made, ih, find?_of_ok made]
      -- A later success decides, and only where there is none does this one.
      cases last? rest (update.make registry).2 id with
      | some later => rfl
      | none =>
        by_cases same : update.id = id
        · simp [same]
        · simp [same]

theorem keyed_make (update : Update α) (keyed : registry.Keyed) :
    (update.make registry).2.Keyed := by
  cases update with
  | add table =>
    by_cases taken : table.id ∈ registry.keys
    · simpa only [make, Registry.insert_of_taken taken] using keyed
    · simpa only [make, Registry.insert_of_free taken] using keyed.put table
  | remove id => exact keyed.erase id

theorem keyed_makeAll (updates : List (Update α)) (keyed : registry.Keyed) :
    (makeAll updates registry).Keyed := by
  induction updates generalizing registry with
  | nil => exact keyed
  | cons update rest ih => exact ih (keyed_make update keyed)

end Update

namespace Registry

variable {α : Type}

/-- Under each id the registry holds the table that the last of its updates added, if that one did
not remove it. -/
structure Settled (registry : Registry α) (last? : String → Option (Update α)) : Prop where
  contains : ∀ id, registry.contains id = true ↔ ∃ table, last? id = some (.add table)
  get : ∀ id, registry.get id =
    match last? id with
    | some (.add table) => .ok table
    | some (.remove _) | none => .error (.unknownTable id)
  own : ∀ id table, registry.get id = .ok table → table.id = id
  listed : ∀ table, table ∈ registry.tables ↔ registry.get table.id = .ok table
  once : registry.tables.Nodup
  distinct : (registry.tables.map Table.id).Nodup
  size : {id | registry.contains id = true}.encard = registry.size

theorem settled_makeAll (updates : List (Update α)) :
    Settled (Update.makeAll updates .empty) (Update.last? updates .empty) := by
  have found := Update.find?_makeAll updates .empty
  have keyed : (Update.makeAll updates .empty).Keyed :=
    Update.keyed_makeAll updates (List.forall_mem_nil _)
  generalize Update.makeAll updates .empty = registry at found keyed
  refine ⟨?_, ?_, ?_, ?_, keyed.distinct_ids.of_map, keyed.distinct_ids, registry.size_eq_encard⟩
  · intro id
    rw [contains_iff, mem_keys_iff, found]
    cases Update.last? updates .empty id with
    | none => simp [find?, empty]
    | some update => cases update <;> simp [Update.left?]
  · intro id
    rw [get, found]
    cases Update.last? updates .empty id with
    | none => rfl
    | some update => cases update <;> rfl
  · intro id table got
    exact (keyed.id_eq (get_eq_ok_iff.1 got)).symm
  · intro table
    rw [get_eq_ok_iff]
    exact keyed.mem_tables_iff

/-- Whatever was added and removed before, with or without success, the last updates that succeeded
settle what is registered. To add a table fails exactly if its id is registered, to remove an id
exactly if it is not, and neither then changes anything. -/
theorem updates_settle (updates : List (Update α)) :
    let registry := Update.makeAll updates .empty
    registry.Settled (Update.last? updates .empty) ∧
    (∀ table fault, (registry.insert table).1 = .error fault ↔
      registry.contains table.id = true ∧ fault = .duplicateTable table.id) ∧
    (∀ id fault, (registry.remove id).1 = .error fault ↔
      registry.contains id = false ∧ fault = .unknownTable id) ∧
    (∀ update fault, (Update.make update registry).1 = .error fault →
      (update.make registry).2 = registry) ∧
    (∀ table, (registry.insert table).1 = .ok () →
      (registry.insert table).2.remove table.id = (.ok table, registry)) ∧
    ∀ table, registry.register table =
      .note (if registry.contains table.id then .alreadyRegistered table.id
        else .registered table.id) (pure (registry.insert table)) := by
  intro registry
  refine ⟨settled_makeAll updates, ?_, ?_, ?_, ?_, registry.register_eq⟩
  · exact fun table fault => insert_eq_error
  · exact fun id fault => remove_eq_error
  · intro update fault failed
    exact Update.make_of_error failed
  · intro table added
    exact remove_inserted added

theorem updates_settle_replaced :
    let table (id name : String) : Table Action := ⟨id, ⟨1, .d6, by decide⟩, name, 0, none, []⟩
    let updates : List (Update Action) := [.add (table "a" "first"), .add (table "a" "second"),
      .remove "b", .remove "a", .add (table "a" "third")]
    let registry := Update.makeAll updates .empty
    registry.get "a" = .ok (table "a" "third") ∧ registry.get "b" = .error (.unknownTable "b") ∧
      {id | registry.contains id = true}.encard = 1 ∧
      (registry.insert (table "a" "fourth")).1 = .error (.duplicateTable "a") ∧
      ((Update.add (table "a" "fourth")).make registry).2 = registry ∧
      (registry.insert (table "b" "")).2.remove "b" = (.ok (table "b" ""), registry) := by
  intro table updates registry
  obtain ⟨settled, refused, _, kept, restored, _⟩ := updates_settle updates
  have replaced : Update.last? updates .empty "a" = some (.add (table "a" "third")) := rfl
  have never : Update.last? updates .empty "b" = none := by decide +kernel
  have one : registry.size = 1 := by decide +kernel
  have registered : registry.contains "a" = true := by decide +kernel
  have taken := (refused (table "a" "fourth") _).2 ⟨registered, rfl⟩
  have found := settled.get "a"
  have missing := settled.get "b"
  have size := settled.size
  rw [replaced] at found
  rw [never] at missing
  rw [one] at size
  exact ⟨found, missing, size, taken, kept (.add (table "a" "fourth")) _ taken,
    restored (table "b" "") (by decide +kernel)⟩

end Registry

end Tabletop
