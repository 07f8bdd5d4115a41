import Tabletop.Proofs.Bounds
import Tabletop.Proofs.ValueSets

/-! A die by the places of its lowest and its highest face.

One pass over the faces that keeps the place of the best face so far ends at the first face of
least value, and so for the greatest. No place kept on the way leads out of the list. So the
faces alone determine a die and all that is kept beside them. -/

set_option autoImplicit false

namespace Tabletop

/-- The place of the best face, each compared with the one at the place kept before it. There is
none if a place leads to no face. -/
def bestPlace (better : Int → Int → Prop) [DecidableRel better] (faces : List Face) : Option Nat :=
  faces.zipIdx.foldlM (fun kept entry => do
    let held ← faces[kept]?
    return if better entry.1.value held.value then entry.2 else kept) 0

/-- The face stands at the place, no face is better, and none before it is as good. -/
structure FirstBest (better : Int → Int → Prop) (faces : List Face) (place : Nat) (face : Face) :
    Prop where
  there : faces[place]? = some face
  best : ∀ other ∈ faces, ¬better other.value face.value
  first : ∀ earlier < place, ∀ other, faces[earlier]? = some other →
    better face.value other.value

/-- What is better than one value is better than every value that is not better than that one. -/
structure Ranks (better : Int → Int → Prop) : Prop where
  irrefl : ∀ value, ¬better value value
  trans : ∀ {first second third}, better first second → better second third → better first third
  compare : ∀ {first second} (other), better first second → ¬better other second →
    better first other

theorem ranks_less : Ranks (· < ·) where
  irrefl := Int.lt_irrefl
  trans := Int.lt_trans
  compare := by omega

theorem ranks_greater : Ranks (· > ·) where
  irrefl := Int.lt_irrefl
  trans := by omega
  compare := by omega

section
variable {better : Int → Int → Prop} {faces seen : List Face} {place kept : Nat}
  {face held : Face}

theorem FirstBest.unique {other : Face} {again : Nat} (left : FirstBest better faces place face)
    (right : FirstBest better faces again other) : place = again ∧ face = other := by
  have same : place = again := by
    rcases Nat.lt_trichotomy place again with before | same | behind
    · exact absurd (right.first place before face left.there)
        (left.best other (List.mem_of_getElem? right.there))
    · exact same
    · exact absurd (left.first again behind other right.there)
        (right.best face (List.mem_of_getElem? left.there))
  subst same
  exact ⟨rfl, Option.some.inj (left.there.symm.trans right.there)⟩

theorem FirstBest.lt_length (best : FirstBest better seen kept held) : kept < seen.length :=
  (List.getElem?_eq_some_iff.1 best.there).1

theorem FirstBest.replace (ranks : Ranks better) (best : FirstBest better seen kept held)
    (beats : better face.value held.value) : FirstBest better (seen ++ [face]) seen.length face where
  there := by simp
  best := by
    intro other member beaten
    rcases List.mem_append.1 member with earlier | last
    · exact best.best other earlier (ranks.trans beaten beats)
    · rw [List.mem_singleton.1 last] at beaten
      exact ranks.irrefl _ beaten
  first := by
    intro earlier before other stands
    rw [List.getElem?_append_left before] at stands
    exact ranks.compare _ beats (best.best other (List.mem_of_getElem? stands))

theorem FirstBest.hold (best : FirstBest better seen kept held)
    (beaten : ¬better face.value held.value) : FirstBest better (seen ++ [face]) kept held where
  there := by rw [List.getElem?_append_left best.lt_length, best.there]
  best := by
    intro other member
    rcases List.mem_append.1 member with earlier | last
    · exact best.best other earlier
    · rwa [List.mem_singleton.1 last]
  first := by
    intro earlier before other stands
    rw [List.getElem?_append_left (Nat.lt_trans before best.lt_length)] at stands
    exact best.first earlier before other stands

variable [DecidableRel better]

theorem exists_firstBest_of_seen (ranks : Ranks better) (rest : List Face)
    (best : FirstBest better seen kept held) :
    ∃ place face, (rest.zipIdx seen.length).foldlM (fun kept entry => do
        let held ← (seen ++ rest)[kept]?
        return if better entry.1.value held.value then entry.2 else kept) kept = some place ∧
      FirstBest better (seen ++ rest) place face := by
  induction rest generalizing seen kept held with
  | nil => exact ⟨kept, held, rfl, by rwa [List.append_nil]⟩
  | cons next rest ih =>
    have there : (seen ++ next :: rest)[kept]? = some held := by
      rw [List.getElem?_append_left best.lt_length, best.there]
    have shift : seen ++ next :: rest = seen ++ [next] ++ rest := by simp
    rw [List.zipIdx_cons, List.foldlM_cons, there]
    by_cases beats : better next.value held.value
    · have rest := ih (best.replace ranks beats)
      rw [← shift, List.length_append] at rest
      simpa [beats] using rest
    · have rest := ih (best.hold beats)
      rw [← shift, List.length_append] at rest
      simpa [beats] using rest

theorem exists_bestPlace (ranks : Ranks better) (some_face : faces ≠ []) :
    ∃ place face, bestPlace better faces = some place ∧ FirstBest better faces place face := by
  obtain ⟨first, rest, rfl⟩ := List.exists_cons_of_ne_nil some_face
  have alone : FirstBest better [first] 0 first := by
    refine ⟨rfl, ?_, ?_⟩
    · intro other member
      rw [List.mem_singleton.1 member]
      exact ranks.irrefl _
    · intro earlier before
      cases before
  -- The first face is compared with itself.
  have pass := exists_firstBest_of_seen ranks rest alone
  simpa [bestPlace, ranks.irrefl] using pass

end

/-- A die with all that is kept beside its faces: the place of its lowest face, that of its highest
face and the number of its distinct values. -/
structure Kept where
  faces : List Face
  lowest : Nat
  highest : Nat
  distinct : Nat
  deriving DecidableEq

def Kept.ofFaces (faces : List Face) : Option Kept := do
  let lowest ← bestPlace (· < ·) faces
  let highest ← bestPlace (· > ·) faces
  return ⟨faces, lowest, highest, distinctValues faces⟩

theorem Kept.exists_ofFaces (faces : List Face) :
    ∃ kept, ofFaces faces = some kept ∧ kept.faces = faces ∧ kept.distinct = valueCount faces := by
  by_cases none : faces = []
  · subst none
    exact ⟨⟨[], 0, 0, 0⟩, rfl, rfl, rfl⟩
  · obtain ⟨lowest, _, least, _⟩ := exists_bestPlace ranks_less none
    obtain ⟨highest, _, greatest, _⟩ := exists_bestPlace ranks_greater none
    refine ⟨⟨faces, lowest, highest, distinctValues faces⟩, ?_, rfl, distinctValues_eq faces⟩
    simp only [ofFaces, least, greatest]
    rfl

namespace Die

theorem firstBest_lowest (die : Die) :
    FirstBest (· < ·) die.faces (die.faces.minIdxOn Face.value die.faces_ne_nil) die.lowest := by
  obtain ⟨within, stands, first⟩ :=
    (List.minIdxOn_eq_iff_eq_minOn die.faces_ne_nil (f := Face.value)).1 rfl
  refine ⟨List.getElem?_eq_some_iff.2 ⟨within, stands⟩, ?_, ?_⟩
  · intro other member
    exact Int.not_lt.2 (lowest_le member)
  · intro earlier before other there
    obtain ⟨_, rfl⟩ := List.getElem?_eq_some_iff.1 there
    exact first earlier before

theorem firstBest_highest (die : Die) :
    FirstBest (· > ·) die.faces (die.faces.maxIdxOn Face.value die.faces_ne_nil) die.highest := by
  obtain ⟨within, stands, first⟩ :=
    (List.maxIdxOn_eq_iff_eq_maxOn die.faces_ne_nil (f := Face.value)).1 rfl
  refine ⟨List.getElem?_eq_some_iff.2 ⟨within, stands⟩, ?_, ?_⟩
  · intro other member
    exact Int.not_lt.2 (le_highest member)
  · intro earlier before other there
    obtain ⟨_, rfl⟩ := List.getElem?_eq_some_iff.1 there
    exact first earlier before

theorem lowest_lt_highest (die : Die) : die.lowest.value < die.highest.value := by
  have varied := die.varied
  rw [distinctValues_eq] at varied
  obtain ⟨first, shown, second, shown_too, differ⟩ := Finset.one_lt_card.1 varied
  obtain ⟨face, member, rfl⟩ := List.mem_map.1 (List.mem_toFinset.1 shown)
  obtain ⟨other, member_too, rfl⟩ := List.mem_map.1 (List.mem_toFinset.1 shown_too)
  have := lowest_le member
  have := lowest_le member_too
  have := le_highest member
  have := le_highest member_too
  omega

theorem ofFaces_faces (die : Die) : ofFaces die.faces = .ok die := dif_pos die.varied

theorem eq_iff {first second : Die} : first = second ↔ first.faces = second.faces := by
  constructor
  · rintro rfl
    rfl
  · intro same
    cases first
    cases second
    cases same
    rfl

theorem kept (die : Die) : ∃ lowest highest,
    Kept.ofFaces die.faces = some ⟨die.faces, lowest, highest, die.distinct⟩ ∧
      FirstBest (· < ·) die.faces lowest die.lowest ∧
      FirstBest (· > ·) die.faces highest die.highest := by
  obtain ⟨lowest, low, least, first_low⟩ := exists_bestPlace ranks_less die.faces_ne_nil
  obtain ⟨highest, high, greatest, first_high⟩ := exists_bestPlace ranks_greater die.faces_ne_nil
  obtain ⟨_, rfl⟩ := first_low.unique die.firstBest_lowest
  obtain ⟨_, rfl⟩ := first_high.unique die.firstBest_highest
  refine ⟨lowest, highest, ?_, first_low, first_high⟩
  simp only [Kept.ofFaces, least, greatest]
  rfl

theorem faceCount_of_gt {sides : Nat} (above : maxValue < sides) (within : sides ≤ maxCount) :
    faceCount sides = 0 := by
  have negative : Int.bmod sides 18446744073709551616 ≤ 0 := by
    rw [Int.bmod_def]
    simp only [maxValue] at above
    have word : sides ≤ 18446744073709551615 := within
    split <;> omega
  exact Int.toNat_of_nonpos negative

theorem faceCount_of_varied {sides : Nat} (within : sides ≤ maxCount)
    (varied : 2 ≤ faceCount sides) : faceCount sides = sides := by
  apply faceCount_of_le
  apply Int.not_lt.1
  intro above
  rw [faceCount_of_gt above within] at varied
  omega

theorem faces_of_numbered {sides : Nat} {die : Die} (within : sides ≤ maxCount)
    (built : numbered sides = .ok die) : die.faces = numberedFaces sides := by
  unfold numbered ofFaces at built
  split at built
  · next varied =>
    have counted : 2 ≤ faceCount sides := by
      rwa [distinctValues_numberedFaces] at varied
    have same := Except.ok.inj built
    have listed : die.faces = numberedFaces (faceCount sides) := by rw [← same]
    rw [listed, faceCount_of_varied within counted]
  · cases built

/-- A list of faces is a die if two of its values differ, and all that is kept of a die is found in
one pass, whatever the faces are: the first face of least value, the first of greatest value and the
number of values. Nothing but the faces tells two dice apart. -/
theorem represented :
    (∀ faces, if 2 ≤ valueCount faces then ∃ die, ofFaces faces = .ok die ∧ die.faces = faces
      else ofFaces faces = .error (.tooFewValues (valueCount faces))) ∧
    ofFaces [] = .error (.tooFewValues 0) ∧
    (∀ faces, ∃ kept, Kept.ofFaces faces = some kept ∧ kept.faces = faces ∧
      kept.distinct = valueCount faces) ∧
    (∀ die : Die, ofFaces die.faces = .ok die ∧ die.faces ≠ [] ∧
      die.lowest.value < die.highest.value ∧ die.distinct = valueCount die.faces ∧
      ∃ lowest highest,
        Kept.ofFaces die.faces = some ⟨die.faces, lowest, highest, die.distinct⟩ ∧
        FirstBest (· < ·) die.faces lowest die.lowest ∧
        FirstBest (· > ·) die.faces highest die.highest) ∧
    (∀ sides die, sides ≤ maxCount → numbered sides = .ok die → die.faces = numberedFaces sides) ∧
    [2, 3, 4, 6, 8, 10, 12, 20, 100].map numbered =
      [d2, d3, d4, d6, d8, d10, d12, d20, d100].map .ok ∧
    ofFaces [⟨-1, "[-]"⟩, ⟨-1, "[-]"⟩, ⟨0, "[ ]"⟩, ⟨0, "[ ]"⟩, ⟨1, "[+]"⟩, ⟨1, "[+]"⟩] = .ok fate ∧
    (∀ first second : Die, (first = second ↔ first.faces = second.faces) ∧
      (first = second ↔ Kept.ofFaces first.faces = Kept.ofFaces second.faces)) := by
  refine ⟨?_, rfl, Kept.exists_ofFaces, ?_, ?_, rfl, fate.ofFaces_faces, ?_⟩
  · intro faces
    rw [ofFaces, ← distinctValues_eq]
    split
    · next varied => exact ⟨⟨faces, varied⟩, rfl, rfl⟩
    · rfl
  · intro die
    exact ⟨die.ofFaces_faces, die.faces_ne_nil, die.lowest_lt_highest, distinctValues_eq _, die.kept⟩
  · intro sides die within built
    exact faces_of_numbered within built
  · intro first second
    refine ⟨eq_iff, ?_, ?_⟩
    · rintro rfl
      rfl
    · intro same
      obtain ⟨_, _, one, _⟩ := first.kept
      obtain ⟨_, _, other, _⟩ := second.kept
      rw [one, other] at same
      exact eq_iff.2 (congrArg Kept.faces (Option.some.inj same))

theorem represented_ties :
    let die : Die := ⟨[⟨2, "b"⟩, ⟨1, "a"⟩, ⟨1, "A"⟩, ⟨2, "B"⟩], by decide⟩
    (∃ lowest highest, Kept.ofFaces die.faces = some ⟨die.faces, lowest, highest, 2⟩ ∧
      FirstBest (· < ·) die.faces lowest ⟨1, "a"⟩ ∧
      FirstBest (· > ·) die.faces highest ⟨2, "b"⟩) ∧
    numbered 6 = .ok d6 ∧ d6.faces = numberedFaces 6 := by
  intro die
  obtain ⟨_, _, _, kept, sided, _⟩ := represented
  exact ⟨(kept die).2.2.2.2, rfl, sided 6 d6 (by decide) rfl⟩

end Die

end Tabletop
