import Tabletop.Proofs.Text.Blanks

/-! The chunks of a text: what stands between its blanks.

Chunks are taken of entries of any kind, so that each character of a text may be
taken with its place. They come one by one, each behind a gap and in front of a
separator or the end. -/

set_option autoImplicit false

namespace Tabletop

section
variable {α : Type}

/-- The maximal runs without a separator, in order. -/
def chunks (separates : α → Bool) (entries : List α) : List (List α) :=
  (entries.splitOnP separates).filter fun run => !run.isEmpty

/-- Whatever stands in front of them is parted from the entries: they begin with a separator, if
with anything. -/
def Parted (separates : α → Bool) (entries : List α) : Prop :=
  ∀ entry ∈ entries.head?, separates entry = true

structure Opening (separates : α → Bool) (gap chunk rest : List α) : Prop where
  separators : ∀ entry ∈ gap, separates entry = true
  some_entry : chunk ≠ []
  visible : ∀ entry ∈ chunk, separates entry = false
  parted : Parted separates rest

variable {separates : α → Bool} {gap chunk rest entries : List α}

theorem parted_of_separators (separators : ∀ entry ∈ gap, separates entry = true) :
    Parted separates gap :=
  fun entry first => separators entry (List.mem_of_mem_head? first)

theorem chunks_cons_separator {entry : α} (first : separates entry = true) :
    chunks separates (entry :: entries) = chunks separates entries := by
  have split := List.splitOnP_append_cons (p := separates) [] entries first
  rw [List.nil_append, List.splitOnP_nil] at split
  rw [chunks, split]
  rfl

theorem chunks_gap_append (separators : ∀ entry ∈ gap, separates entry = true) :
    chunks separates (gap ++ entries) = chunks separates entries := by
  induction gap with
  | nil => rfl
  | cons entry gap ih =>
    obtain ⟨first, others⟩ := List.forall_mem_cons.1 separators
    rw [List.cons_append, chunks_cons_separator first, ih others]

theorem chunks_gap (separators : ∀ entry ∈ gap, separates entry = true) :
    chunks separates gap = [] := by
  rw [← List.append_nil gap, chunks_gap_append separators]
  rfl

theorem chunks_append (parted : Parted separates rest) :
    chunks separates (entries ++ rest) = chunks separates entries ++ chunks separates rest := by
  cases rest with
  | nil =>
    have nothing : chunks separates [] = [] := chunks_gap (by simp)
    rw [List.append_nil, nothing, List.append_nil]
  | cons entry rest =>
    have first : separates entry = true := parted entry rfl
    rw [chunks_cons_separator first, chunks, List.splitOnP_append_cons _ _ first, List.filter_append]
    rfl

theorem chunks_of_visible (some_entry : chunk ≠ [])
    (visible : ∀ entry ∈ chunk, separates entry = false) : chunks separates chunk = [chunk] := by
  rw [chunks, List.splitOnP_eq_singleton visible]
  simpa using some_entry

theorem Opening.chunks_eq (opening : Opening separates gap chunk rest) :
    chunks separates (gap ++ (chunk ++ rest)) = chunk :: chunks separates rest := by
  rw [chunks_gap_append opening.separators, chunks_append opening.parted,
    chunks_of_visible opening.some_entry opening.visible]
  rfl

theorem Opening.begins (opening : Opening separates gap chunk rest) :
    ∀ entry ∈ (chunk ++ rest).head?, separates entry = false := by
  obtain ⟨first, others, rfl⟩ := List.exists_cons_of_ne_nil opening.some_entry
  intro entry shown
  cases shown
  exact opening.visible first List.mem_cons_self

theorem separators_or_opening (separates : α → Bool) (entries : List α) :
    (∀ entry ∈ entries, separates entry = true) ∨
      ∃ gap chunk rest, entries = gap ++ (chunk ++ rest) ∧ Opening separates gap chunk rest := by
  cases behind : entries.dropWhile separates with
  | nil => exact .inl (by simpa using behind)
  | cons first others =>
    right
    have visible : separates first = false := by
      have shown := List.head?_dropWhile_not separates entries
      rwa [behind] at shown
    refine ⟨entries.takeWhile separates, (first :: others).takeWhile (!separates ·),
      (first :: others).dropWhile (!separates ·), ?_, ?_, ?_, ?_, ?_⟩
    · rw [List.takeWhile_append_dropWhile, ← behind, List.takeWhile_append_dropWhile]
    · exact fun entry member => List.mem_takeWhile_imp member
    · simp [visible]
    · intro entry member
      simpa using List.mem_takeWhile_imp member
    · intro entry shown
      have stop := List.head?_dropWhile_not (!separates ·) (first :: others)
      rw [Option.mem_def.1 shown] at stop
      simpa using stop

theorem chunks_eq_nil_iff :
    chunks separates entries = [] ↔ ∀ entry ∈ entries, separates entry = true := by
  constructor
  · intro none
    rcases separators_or_opening separates entries with separators | ⟨gap, chunk, rest, rfl, opening⟩
    · exact separators
    · rw [opening.chunks_eq] at none
      cases none
  · exact chunks_gap

theorem exists_opening {more : List (List α)} (same : chunks separates entries = chunk :: more) :
    ∃ gap rest, entries = gap ++ (chunk ++ rest) ∧ Opening separates gap chunk rest ∧
      chunks separates rest = more := by
  rcases separators_or_opening separates entries with separators | ⟨gap, chunk, rest, rfl, opening⟩
  · rw [chunks_gap separators] at same
    cases same
  · rw [opening.chunks_eq] at same
    cases same
    exact ⟨gap, rest, rfl, opening, rfl⟩

theorem Opening.zipIdx (opening : Opening separates gap chunk rest) (first second third : Nat) :
    Opening (fun placed => separates placed.1) (gap.zipIdx first) (chunk.zipIdx second)
      (rest.zipIdx third) where
  separators := fun _ member => opening.separators _ (List.fst_mem_of_mem_zipIdx member)
  some_entry := by simpa using opening.some_entry
  visible := fun _ member => opening.visible _ (List.fst_mem_of_mem_zipIdx member)
  parted := by
    intro placed shown
    cases rest with
    | nil => cases shown
    | cons entry rest =>
      cases shown
      exact opening.parted entry rfl

end

/-- Each run of blanks is one space. -/
def squeezed : List Char → List Char
  | [] => []
  | char :: rest =>
    if isBlank char then
      if rest.head?.any isBlank then squeezed rest else ' ' :: squeezed rest
    else char :: squeezed rest

def SameSqueezed (first second : String) : Prop :=
  squeezed first.toList = squeezed second.toList

theorem squeezed_append {run rest : List Char} (visible : ∀ char ∈ run, isBlank char = false) :
    squeezed (run ++ rest) = run ++ squeezed rest := by
  induction run with
  | nil => rfl
  | cons char run ih =>
    obtain ⟨first, others⟩ := List.forall_mem_cons.1 visible
    simp [squeezed, first, ih others]

theorem squeezed_gap_append {gap rest : List Char} (blank : Blank gap) (some_blank : gap ≠ [])
    (visible : ∀ char ∈ rest.head?, isBlank char = false) :
    squeezed (gap ++ rest) = ' ' :: squeezed rest := by
  induction gap with
  | nil => exact absurd rfl some_blank
  | cons char gap ih =>
    obtain ⟨first, others⟩ := Blank.cons_iff.1 blank
    cases gap with
    | nil =>
      have last : rest.head?.any isBlank = false := (Option.any_eq_false _ _).2 visible
      simp [squeezed, first, last]
    | cons next gap =>
      have another := (Blank.cons_iff.1 others).1
      rw [← ih others (List.cons_ne_nil _ _)]
      simp [squeezed, first, another]

theorem Blank.eq_nil {text : List Char} (blank : Blank text)
    (last : ∀ char ∈ text.getLast?, isBlank char = false) : text = [] := by
  cases ends : text.getLast? with
  | none => exact List.getLast?_eq_none_iff.1 ends
  | some char =>
    have visible := last char ends
    rw [blank char (List.mem_of_getLast? ends)] at visible
    cases visible

theorem visible_getLast?_of_append {first second : List Char}
    (last : ∀ char ∈ (first ++ second).getLast?, isBlank char = false) :
    ∀ char ∈ second.getLast?, isBlank char = false := by
  intro char ends
  apply last
  rw [List.getLast?_append, Option.mem_def.1 ends]
  rfl

theorem squeezed_of_parted {text : List Char} (parted : Parted isBlank text)
    (last : ∀ char ∈ text.getLast?, isBlank char = false) :
    squeezed text = (chunks isBlank text).flatMap (' ' :: ·) := by
  induction same : chunks isBlank text generalizing text with
  | nil =>
    rw [Blank.eq_nil (chunks_eq_nil_iff.1 same) last]
    rfl
  | cons chunk more ih =>
    obtain ⟨gap, rest, rfl, opening, behind⟩ := exists_opening same
    have some_blank : gap ≠ [] := by
      rintro rfl
      obtain ⟨char, others, rfl⟩ := List.exists_cons_of_ne_nil opening.some_entry
      have visible := opening.begins char rfl
      rw [parted char rfl] at visible
      cases visible
    have ends := visible_getLast?_of_append (visible_getLast?_of_append last)
    rw [squeezed_gap_append opening.separators some_blank opening.begins,
      squeezed_append opening.visible, ih opening.parted ends behind]
    rfl

theorem intercalate_cons_eq_flatMap (chunk : List Char) (more : List (List Char)) :
    [' '].intercalate (chunk :: more) = chunk ++ more.flatMap (' ' :: ·) := by
  induction more generalizing chunk with
  | nil => simp
  | cons next more ih =>
    rw [List.intercalate_cons_cons, ih, List.flatMap_cons, List.append_assoc]
    rfl

theorem squeezed_eq_intercalate {text : List Char}
    (first : ∀ char ∈ text.head?, isBlank char = false)
    (last : ∀ char ∈ text.getLast?, isBlank char = false) :
    squeezed text = [' '].intercalate (chunks isBlank text) := by
  cases same : chunks isBlank text with
  | nil =>
    rw [Blank.eq_nil (chunks_eq_nil_iff.1 same) last]
    rfl
  | cons chunk more =>
    obtain ⟨gap, rest, rfl, opening, rfl⟩ := exists_opening same
    cases gap with
    | cons char gap =>
      have visible := first char rfl
      rw [opening.separators char List.mem_cons_self] at visible
      cases visible
    | nil =>
      rw [List.nil_append] at last ⊢
      rw [squeezed_append opening.visible,
        squeezed_of_parted opening.parted (visible_getLast?_of_append last),
        intercalate_cons_eq_flatMap]

example : squeezed "a\t\n b  c".toList = "a b c".toList := by decide

theorem exists_blanks_around_trim (text : List Char) :
    ∃ lead trail, text = lead ++ (trim text ++ trail) ∧ Blank lead ∧ Blank trail := by
  refine ⟨text.takeWhile isBlank, ((text.dropWhile isBlank).reverse.takeWhile isBlank).reverse, ?_,
    ?_, ?_⟩
  · rw [trim, ← List.reverse_append, List.takeWhile_append_dropWhile, List.reverse_reverse,
      List.takeWhile_append_dropWhile]
  · exact fun char member => List.mem_takeWhile_imp member
  · exact fun char member => List.mem_takeWhile_imp (List.mem_reverse.1 member)

theorem chunks_trim (text : List Char) : chunks isBlank (trim text) = chunks isBlank text := by
  obtain ⟨lead, trail, same, leading, trailing⟩ := exists_blanks_around_trim text
  conv => right; rw [same]
  rw [chunks_gap_append leading, chunks_append (parted_of_separators trailing),
    chunks_gap trailing, List.append_nil]

theorem squeezed_trim (text : List Char) :
    squeezed (trim text) = [' '].intercalate (chunks isBlank text) := by
  rw [← chunks_trim]
  refine squeezed_eq_intercalate ?_ (getLast?_trim text)
  intro char shown
  rw [head?_trim] at shown
  simpa using List.find?_some shown

end Tabletop
