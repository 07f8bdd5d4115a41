import Tabletop.Proofs.Representation

/-! Numbered dice over the whole range of sides.

The number of sides is read as a signed word before the faces are counted. As long as it is the
same number there, two sides or more make a die with that many faces. From the first number that
turns negative there are no faces to make a die of. -/

set_option autoImplicit false

namespace Tabletop.Die

theorem getElem?_numberedFaces (sides index : Nat) :
    (numberedFaces sides)[index]? =
      if index < sides then some (Face.numbered (index + 1)) else none := by
  rw [numberedFaces, List.getElem?_map]
  split
  · next within =>
    rw [List.getElem?_range within]
    rfl
  · next beyond =>
    rw [List.getElem?_eq_none (by rw [List.length_range]; omega)]
    rfl

theorem mem_numberedFaces {sides : Nat} {face : Face} :
    face ∈ numberedFaces sides ↔
      1 ≤ face.value ∧ face.value ≤ sides ∧ face = .numbered face.value := by
  simp only [numberedFaces, List.mem_map, List.mem_range]
  constructor
  · rintro ⟨index, within, rfl⟩
    refine ⟨?_, ?_, rfl⟩ <;> simp only [Face.numbered] <;> omega
  · rintro ⟨positive, within, same⟩
    refine ⟨(face.value - 1).toNat, by omega, ?_⟩
    rw [same]
    congr 1
    simp only [Face.numbered]
    omega

theorem eq_numberedFaces_iff {faces : List Face} :
    faces = numberedFaces faces.length ↔ ∀ (index : Nat) face, faces[index]? = some face →
      face.value = index + 1 ∧ face.label = toString face.value := by
  constructor
  · intro same index face there
    rw [same, getElem?_numberedFaces] at there
    split at there
    · cases there
      exact ⟨rfl, rfl⟩
    · cases there
  · intro shows
    apply List.ext_getElem?
    intro index
    rw [getElem?_numberedFaces]
    split
    · next within =>
      obtain ⟨value, label⟩ := shows index faces[index] (List.getElem?_eq_getElem within)
      rw [List.getElem?_eq_getElem within, Face.numbered, ← value, ← label]
    · next beyond => exact List.getElem?_eq_none (Nat.not_lt.1 beyond)

section
variable {die : Die}

theorem faces_of_isNumbered (numbered : die.isNumbered = true) :
    die.faces = numberedFaces die.faces.length :=
  of_decide_eq_true numbered

theorem isNumbered_of_faces {sides : Nat} (listed : die.faces = numberedFaces sides) :
    die.isNumbered = true := by
  apply decide_eq_true
  rw [listed, length_numberedFaces]

theorem isNumbered_iff :
    die.isNumbered = true ↔ ∀ (index : Nat) face, die.faces[index]? = some face →
      face.value = index + 1 ∧ face.label = toString face.value :=
  decide_eq_true_iff.trans eq_numberedFaces_iff

theorem length_le_of_isNumbered {bound : Int} (numbered : die.isNumbered = true)
    (values : ∀ face ∈ die.faces, face.value ≤ bound) : (die.faces.length : Int) ≤ bound := by
  have positive := die.faces_pos
  have last : Face.numbered die.faces.length ∈ die.faces := by
    rw [faces_of_isNumbered numbered, length_numberedFaces]
    exact mem_numberedFaces.2 ⟨by simp only [Face.numbered]; omega, Int.le_refl _, rfl⟩
  exact values _ last

theorem numbered_length (numbered : die.isNumbered = true)
    (within : (die.faces.length : Int) ≤ maxValue) : Die.numbered die.faces.length = .ok die := by
  rw [Die.numbered, faceCount_of_le within, ← faces_of_isNumbered numbered]
  exact die.ofFaces_faces

theorem isNumbered_of_numbered {sides : Nat} (built : numbered sides = .ok die) :
    die.isNumbered = true := by
  unfold numbered ofFaces at built
  split at built
  · have same := Except.ok.inj built
    exact @isNumbered_of_faces die (faceCount sides) (by rw [← same])
  · cases built

/-- The die has the faces from one to `sides` in order, each labelled with its decimal number, and
all that is asked of it is answered by their number. -/
structure Sided (sides : Nat) (die : Die) : Prop where
  faces : ∀ index, die.faces[index]? =
    if index < sides then some ⟨index + 1, String.ofList (Nat.toDigits 10 (index + 1))⟩ else none
  lowest : die.lowest.value = 1
  highest : die.highest.value = sides
  distinct : die.distinct = sides
  isNumbered : die.isNumbered = true
  text : die.text = "d" ++ String.ofList (Nat.toDigits 10 sides)

theorem Sided.of_faces {sides : Nat} (positive : 0 < sides)
    (listed : die.faces = numberedFaces sides) : Sided sides die where
  faces index := by
    rw [listed, getElem?_numberedFaces]
    rfl
  lowest := by
    have one : Face.numbered 1 ∈ die.faces := by
      rw [listed]
      exact mem_numberedFaces.2 ⟨Int.le_refl _, by simp only [Face.numbered]; omega, rfl⟩
    have shown : die.lowest ∈ numberedFaces sides := listed ▸ List.minOn_mem
    exact Int.le_antisymm (lowest_le one) (mem_numberedFaces.1 shown).1
  highest := by
    have last : Face.numbered sides ∈ die.faces := by
      rw [listed]
      exact mem_numberedFaces.2 ⟨by simp only [Face.numbered]; omega, Int.le_refl _, rfl⟩
    have shown : die.highest ∈ numberedFaces sides := listed ▸ List.maxOn_mem
    exact Int.le_antisymm (mem_numberedFaces.1 shown).2.1 (le_highest last)
  distinct := by rw [Die.distinct, listed, distinctValues_numberedFaces]
  isNumbered := isNumbered_of_faces listed
  text := by
    have letter : die.text = "d" ++ toString die.faces.length := if_pos (isNumbered_of_faces listed)
    rw [letter, listed, length_numberedFaces]
    rfl

end

theorem numbered_of_le {sides : Nat} (two : 2 ≤ sides) (within : (sides : Int) ≤ maxValue) :
    ∃ die, numbered sides = .ok die ∧ Sided sides die := by
  have varied : 2 ≤ distinctValues (numberedFaces sides) := by rwa [distinctValues_numberedFaces]
  refine ⟨⟨numberedFaces sides, varied⟩, ?_, .of_faces (by omega) rfl⟩
  rw [numbered, faceCount_of_le within]
  exact ofFaces_faces ⟨numberedFaces sides, varied⟩

theorem numbered_of_lt {sides : Nat} (few : faceCount sides < 2) :
    numbered sides = .error (.tooFewValues (faceCount sides)) := by
  have counted := distinctValues_numberedFaces (faceCount sides)
  have few : ¬2 ≤ distinctValues (numberedFaces (faceCount sides)) := by omega
  unfold numbered ofFaces
  rw [dif_neg few, counted]

/-- Two sides or more make a numbered die with that many sides, as long as the greatest value can
say how many they are. With fewer sides the fault tells their number, and with more it tells of no
faces at all. The numbered dice are those made of the number of their faces, and no others. -/
theorem numbered_sides (sides : Nat) (counted : sides ≤ maxCount) :
    (2 ≤ sides → (sides : Int) ≤ maxValue → ∃ die, numbered sides = .ok die ∧ Sided sides die) ∧
    (sides < 2 → numbered sides = .error (.tooFewValues sides)) ∧
    (maxValue < sides → numbered sides = .error (.tooFewValues 0)) ∧
    ∀ die : Die,
      (die.isNumbered = true ↔ ∀ (index : Nat) face, die.faces[index]? = some face →
        face.value = index + 1 ∧ face.label = toString face.value) ∧
      ((∀ face ∈ die.faces, face.value ≤ maxValue) →
        (die.isNumbered = true ↔ numbered die.faces.length = .ok die)) := by
  refine ⟨numbered_of_le, ?_, ?_, ?_⟩
  · intro few
    have read : faceCount sides = sides := faceCount_of_le (by simp only [maxValue]; omega)
    have refused := @numbered_of_lt sides (by omega)
    rwa [read] at refused
  · intro above
    have none := faceCount_of_gt above counted
    rw [numbered_of_lt (by omega), none]
  · intro die
    refine ⟨isNumbered_iff, fun values => ⟨fun shows => ?_, isNumbered_of_numbered⟩⟩
    exact numbered_length shows (length_le_of_isNumbered shows values)

theorem numbered_sides_greatest :
    (∃ die, numbered 9223372036854775807 = .ok die ∧ Sided 9223372036854775807 die) ∧
    numbered 1 = .error (.tooFewValues 1) ∧
    numbered 9223372036854775808 = .error (.tooFewValues 0) ∧
    (d6.isNumbered = true ↔ numbered 6 = .ok d6) := by
  obtain ⟨built, _, _, dice⟩ := numbered_sides 9223372036854775807 (by decide)
  obtain ⟨_, few, _⟩ := numbered_sides 1 (by decide)
  obtain ⟨_, _, beyond, _⟩ := numbered_sides 9223372036854775808 (by decide)
  exact ⟨built (by decide) (by decide), few (by decide), beyond (by decide),
    (dice d6).2 (by decide)⟩

/-- More than two sides that are refused for having no face. -/
theorem numbered_beyond :
    let sides := 9223372036854775808
    sides ≤ maxCount ∧ ¬sides < 2 ∧ numbered sides = .error (.tooFewValues 0) :=
  ⟨by decide, by decide, rfl⟩

end Tabletop.Die
