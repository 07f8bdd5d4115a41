import Tabletop.Proofs.ValueSets

/-! Sets of values as they are made and as they are read.

A set made of a list is the sorted list of its values, in whatever order they are put in. A range
is listed word by word, and the step behind a word is only taken while another word follows. So
it ends behind its last value also where that is the greatest word. -/

set_option autoImplicit false

namespace Tabletop

/-- A range of words with both ends included, listed from the front. It is spent when its last word
has been taken. -/
structure Span where
  first : Int64
  last : Int64
  spent : Bool

namespace Span

def ofEnds (first last : Int64) : Span := ⟨first, last, false⟩

def next? (span : Span) : Option (Int64 × Span) :=
  if span.spent ∨ span.last < span.first then none
  else if span.first < span.last then some (span.first, { span with first := span.first + 1 })
  else some (span.first, { span with spent := true })

def left (span : Span) : Nat :=
  if span.spent then 0 else (span.last.toInt + 1 - span.first.toInt).toNat

theorem toInt_succ {word last : Int64} (less : word < last) :
    (word + 1).toInt = word.toInt + 1 := by
  have within := Int64.lt_iff_toInt_lt.1 less
  have least := word.le_toInt
  have greatest := last.toInt_lt
  rw [Int64.toInt_add, Int64.toInt_one]
  exact Int.bmod_eq_of_le_mul_two (by omega) (by omega)

/-- What can be taken: nothing from a range without words, and otherwise its first word, with one
word less behind it. -/
theorem next?_cases (span : Span) :
    span.next? = none ∧ span.left = 0 ∨
    ∃ rest, span.next? = some (span.first, rest) ∧ span.left = rest.left + 1 ∧
      (rest.left = 0 ∨ rest.first.toInt = span.first.toInt + 1) := by
  obtain ⟨first, last, spent⟩ := span
  cases spent with
  | true => exact .inl ⟨rfl, rfl⟩
  | false =>
    simp only [next?, left, Bool.false_eq_true, false_or, if_false]
    by_cases reversed : last < first
    · have reversed_too := Int64.lt_iff_toInt_lt.1 reversed
      exact .inl ⟨if_pos reversed, by omega⟩
    · refine .inr ?_
      have ordered := mt Int64.lt_iff_toInt_lt.2 reversed
      rw [if_neg reversed]
      by_cases more : first < last
      · have more_too := Int64.lt_iff_toInt_lt.1 more
        have step := toInt_succ more
        rw [if_pos more]
        refine ⟨⟨first + 1, last, false⟩, rfl, ?_, .inr step⟩
        simp only [Bool.false_eq_true, if_false, step]
        omega
      · have same := mt Int64.lt_iff_toInt_lt.2 more
        rw [if_neg more]
        refine ⟨⟨first, last, true⟩, rfl, ?_, .inl rfl⟩
        simp only [if_true]
        omega

theorem left_of_next? {span rest : Span} {word : Int64} (taken : span.next? = some (word, rest)) :
    rest.left < span.left := by
  rcases span.next?_cases with ⟨stops, _⟩ | ⟨_, goes, one_less, _⟩
  · rw [stops] at taken
    cases taken
  · rw [goes] at taken
    cases taken
    omega

def words (span : Span) : List Int64 :=
  match taken : span.next? with
  | none => []
  | some (word, rest) =>
    have := left_of_next? taken
    word :: rest.words
termination_by span.left

theorem words_of_none {span : Span} (stops : span.next? = none) : span.words = [] := by
  rw [words]
  split
  · rfl
  · next taken =>
    rw [stops] at taken
    cases taken

theorem words_of_some {span rest : Span} {word : Int64} (goes : span.next? = some (word, rest)) :
    span.words = word :: rest.words := by
  rw [words]
  split
  · next taken =>
    rw [goes] at taken
    cases taken
  · next taken =>
    rw [goes] at taken
    cases taken
    rfl

theorem map_toInt_words (span : Span) :
    span.words.map Int64.toInt =
      (List.range span.left).map fun (offset : Nat) => span.first.toInt + offset := by
  induction counted : span.left generalizing span with
  | zero =>
    rcases span.next?_cases with ⟨stops, _⟩ | ⟨rest, _, one_less, _⟩
    · rw [words_of_none stops]
      rfl
    · omega
  | succ count ih =>
    rcases span.next?_cases with ⟨_, empty⟩ | ⟨rest, goes, one_less, step⟩
    · omega
    · rw [words_of_some goes, List.map_cons, ih rest (by omega), List.range_succ_eq_map,
        List.map_cons, List.map_map]
      congr 1
      · exact (Int.add_zero _).symm
      · apply List.map_congr_left
        intro offset member
        have before := List.mem_range.1 member
        simp only [Function.comp]
        omega

end Span

namespace ValueSet

theorem values_range (first last : Int64) :
    (range first.toInt last.toInt).values = (Span.ofEnds first last).words.map Int64.toInt :=
  (Span.map_toInt_words (.ofEnds first last)).symm

theorem contains_iff {set : ValueSet} {value : Int} :
    set.contains value = true ↔ value ∈ set.values :=
  List.contains_iff_mem

theorem eq_iff_contains {first second : ValueSet} :
    first = second ↔ ∀ value, first.contains value = second.contains value := by
  refine eq_iff.trans (forall_congr' fun value => ?_)
  rw [Bool.eq_iff_iff, contains_iff, contains_iff]

theorem values_ofList_eq_mergeSort (values : List Int) :
    (ofList values).values = values.dedup.mergeSort := by
  have sorted : values.dedup.mergeSort.Pairwise (· ≤ ·) := by
    refine (List.pairwise_mergeSort ?_ ?_ values.dedup).imp of_decide_eq_true
    · simp only [decide_eq_true_eq]
      omega
    · simp only [Bool.or_eq_true, decide_eq_true_eq]
      omega
  have distinct : values.dedup.mergeSort.Nodup :=
    (List.mergeSort_perm _ _).nodup_iff.2 values.nodup_dedup
  have ascending := (sorted.and distinct).imp fun both => Int.lt_iff_le_and_ne.2 both
  apply (ofList values).ascending.eq_of_mem_iff ascending
  intro value
  rw [mem_ofList, List.mem_mergeSort, List.mem_dedup]

theorem mem_insert {set : ValueSet} {value other : Int} :
    other ∈ (set.insert value).values ↔ other = value ∨ other ∈ set.values :=
  mem_insertValue

theorem mem_foldl_insert {values : List Int} {set : ValueSet} {value : Int} :
    value ∈ (values.foldl (fun set value => set.insert value) set).values ↔
      value ∈ values ∨ value ∈ set.values := by
  induction values generalizing set with
  | nil => exact (or_iff_right List.not_mem_nil).symm
  | cons first rest ih =>
    rw [List.foldl_cons, ih, mem_insert, List.mem_cons, or_left_comm, or_assoc]

theorem foldl_insert (values : List Int) :
    values.foldl (fun set value => set.insert value) empty = ofList values := by
  apply eq_iff.2
  intro value
  rw [mem_foldl_insert, mem_ofList]
  exact or_iff_left List.not_mem_nil

theorem isEmpty_ofList (values : List Int) : (ofList values).isEmpty = true ↔ values = [] := by
  rw [isEmpty, List.isEmpty_iff, List.eq_nil_iff_forall_not_mem, List.eq_nil_iff_forall_not_mem]
  simp only [mem_ofList]

/-- The set is read as the values of the list, each once and in ascending order, by all that read
it. -/
structure Canonical (values : List Int) (set : ValueSet) : Prop where
  ascending : set.values.Pairwise (· < ·)
  members : ∀ value, value ∈ set.values ↔ value ∈ values
  contains : ∀ value, set.contains value = true ↔ value ∈ values
  size : set.size = values.toFinset.card
  isEmpty : set.isEmpty = true ↔ values = []
  text : set.text = ", ".intercalate (values.dedup.mergeSort.map toString)

theorem canonical_ofList (values : List Int) : Canonical values (ofList values) where
  ascending := (ofList values).ascending
  members _ := mem_ofList
  contains _ := contains_iff.trans mem_ofList
  size := size_ofList values
  isEmpty := isEmpty_ofList values
  text := by rw [text, values_ofList_eq_mergeSort]

/-- A set made of a list is read as the values of the list in ascending order, from whichever end
they are put in, and two sets are equal exactly when they hold the same values. A range between two
words is listed up to its last one, holds what lies between its ends, and is empty when they are in
reverse. -/
theorem made_canonical :
    (∀ values, Canonical values (ofList values) ∧
      values.foldl (fun set value => set.insert value) empty = ofList values) ∧
    (∀ first second, ofList first = ofList second ↔ ∀ value, value ∈ first ↔ value ∈ second) ∧
    (∀ first second : ValueSet,
      first = second ↔ ∀ value, first.contains value = second.contains value) ∧
    ∀ first last : Int64,
      let listed := (Span.ofEnds first last).words.map Int64.toInt
      let set := range first.toInt last.toInt
      set = ofList listed ∧ Canonical listed set ∧
        (∀ value, set.contains value = true ↔ first.toInt ≤ value ∧ value ≤ last.toInt) ∧
        (set.size : Int) = max 0 (last.toInt - first.toInt + 1) ∧
        (set.isEmpty = true ↔ last.toInt < first.toInt) := by
  refine ⟨fun values => ⟨canonical_ofList values, foldl_insert values⟩, ?_, ?_, ?_⟩
  · exact fun first second => ofList_eq_iff
  · exact fun first second => eq_iff_contains
  · intro first last listed set
    have made : set = ofList listed := by
      apply eq_iff.2
      intro value
      rw [mem_ofList, values_range]
    have size : set.size = (last.toInt + 1 - first.toInt).toNat := size_range _ _
    refine ⟨made, made ▸ canonical_ofList listed, fun value => contains_iff.trans mem_range, ?_, ?_⟩
    · omega
    · have none : set.isEmpty = true ↔ set.size = 0 :=
        List.isEmpty_iff.trans List.length_eq_zero_iff.symm
      rw [none, size]
      omega

end ValueSet

end Tabletop
