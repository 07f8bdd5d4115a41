import Tabletop.Saturation

/-! Finite sets of values, kept as strictly ascending lists.

The list is determined by its members, so two sets are equal exactly when they
hold the same values. -/

set_option autoImplicit false

namespace Tabletop

structure ValueSet where
  values : List Int
  ascending : values.Pairwise (· < ·)
  deriving DecidableEq

namespace ValueSet

def empty : ValueSet := ⟨[], .nil⟩

instance : Inhabited ValueSet := ⟨empty⟩

def insertValue (value : Int) : List Int → List Int
  | [] => [value]
  | first :: rest =>
    if value < first then value :: first :: rest
    else if value = first then first :: rest
    else first :: insertValue value rest

@[simp] theorem mem_insertValue {value other : Int} {values : List Int} :
    other ∈ insertValue value values ↔ other = value ∨ other ∈ values := by
  induction values with
  | nil => simp [insertValue]
  | cons first rest ih =>
    simp only [insertValue]
    split
    · simp
    · split
      · simp_all
      · simp only [List.mem_cons, ih]
        exact or_left_comm

theorem insertValue_ascending {value : Int} {values : List Int}
    (ascending : values.Pairwise (· < ·)) : (insertValue value values).Pairwise (· < ·) := by
  induction values with
  | nil => exact List.pairwise_singleton _ _
  | cons first rest ih =>
    obtain ⟨least, tail⟩ := List.pairwise_cons.1 ascending
    simp only [insertValue]
    split
    · next less =>
      refine List.pairwise_cons.2 ⟨fun other member => ?_, ascending⟩
      rcases List.mem_cons.1 member with rfl | later
      · exact less
      · exact Int.lt_trans less (least other later)
    · split
      · exact ascending
      · next notLess notEqual =>
        refine List.pairwise_cons.2 ⟨fun other member => ?_, ih tail⟩
        rcases mem_insertValue.1 member with rfl | later
        · omega
        · exact least other later

def insert (value : Int) (set : ValueSet) : ValueSet :=
  ⟨insertValue value set.values, insertValue_ascending set.ascending⟩

def ofList (values : List Int) : ValueSet := values.foldr insert empty

def range (first last : Int) : ValueSet where
  values := (List.range (last + 1 - first).toNat).map fun (offset : Nat) => first + offset
  ascending := List.pairwise_map.2 (List.pairwise_lt_range.imp fun less => by omega)

def contains (set : ValueSet) (value : Int) : Bool := set.values.contains value

def size (set : ValueSet) : Nat := set.values.length

def isEmpty (set : ValueSet) : Bool := set.values.isEmpty

/-- The values in ascending order, each after the first behind a comma and a space. -/
def text (set : ValueSet) : String := ", ".intercalate (set.values.map toString)

@[simp] theorem mem_ofList {value : Int} {values : List Int} :
    value ∈ (ofList values).values ↔ value ∈ values := by
  induction values with
  | nil => exact Iff.rfl
  | cons first rest ih =>
    rw [List.mem_cons, ← ih]
    exact mem_insertValue

@[simp] theorem contains_ofList (values : List Int) (value : Int) :
    (ofList values).contains value = values.contains value := by
  rw [Bool.eq_iff_iff]
  simp [contains]

theorem values_ofList {values : List Int} (ascending : values.Pairwise (· < ·)) :
    (ofList values).values = values := by
  induction values with
  | nil => rfl
  | cons first rest ih =>
    obtain ⟨least, tail⟩ := List.pairwise_cons.1 ascending
    change insertValue first (ofList rest).values = _
    rw [ih tail]
    cases rest with
    | nil => rfl
    | cons second rest => simp [insertValue, least second]

theorem mem_range {value first last : Int} :
    value ∈ (range first last).values ↔ first ≤ value ∧ value ≤ last := by
  simp only [range, List.mem_map, List.mem_range]
  constructor
  · rintro ⟨offset, less, rfl⟩
    omega
  · intro within
    exact ⟨(value - first).toNat, by omega, by omega⟩

theorem size_range (first last : Int) : (range first last).size = (last + 1 - first).toNat := by
  simp [size, range]

end ValueSet

end Tabletop
