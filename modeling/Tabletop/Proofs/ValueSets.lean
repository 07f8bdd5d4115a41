import Mathlib.Data.Finset.Card
import Mathlib.Data.List.Sort
import Tabletop.Die

/-! Sets of values by their members, and the number of values of a list.

The members of a set determine the list it is kept as. So a set made of a list depends neither
on the order of the list nor on repetitions, and its size counts the distinct values. -/

set_option autoImplicit false

namespace Tabletop

namespace ValueSet

theorem values_nodup (set : ValueSet) : set.values.Nodup :=
  set.ascending.imp fun less => Int.ne_of_lt less

theorem eq_iff {first second : ValueSet} :
    first = second ↔ ∀ value, value ∈ first.values ↔ value ∈ second.values := by
  constructor
  · rintro rfl value
    exact Iff.rfl
  · intro members
    have same : first.values = second.values :=
      first.ascending.eq_of_mem_iff second.ascending members
    cases first
    cases second
    cases same
    rfl

theorem ofList_eq_iff {first second : List Int} :
    ofList first = ofList second ↔ ∀ value, value ∈ first ↔ value ∈ second := by
  rw [eq_iff]
  simp only [mem_ofList]

theorem size_ofList (values : List Int) : (ofList values).size = values.toFinset.card := by
  have members : (ofList values).values.toFinset = values.toFinset := by
    ext value
    simp
  rw [← members, List.toFinset_card_of_nodup (values_nodup _)]
  rfl

theorem size_ofList_natural (values : List Nat) :
    (ofList (values.map Int.ofNat)).size = values.toFinset.card := by
  have image : (values.map Int.ofNat).toFinset = values.toFinset.image Int.ofNat := by
    ext value
    simp
  rw [size_ofList, image]
  exact Finset.card_image_of_injective _ fun _ _ same => Int.ofNat.inj same

end ValueSet

def valueCount (faces : List Face) : Nat := (faces.map Face.value).toFinset.card

theorem distinctValues_eq (faces : List Face) : distinctValues faces = valueCount faces :=
  ValueSet.size_ofList _

theorem exists_face_not_mem {faces : List Face} {values : List Int}
    (fewer : values.toFinset.card < valueCount faces) : ∃ face ∈ faces, face.value ∉ values := by
  obtain ⟨value, shown, spared⟩ := Finset.exists_mem_notMem_of_card_lt_card fewer
  obtain ⟨face, member, rfl⟩ := List.mem_map.1 (List.mem_toFinset.1 shown)
  exact ⟨face, member, fun listed => spared (List.mem_toFinset.2 listed)⟩

end Tabletop
