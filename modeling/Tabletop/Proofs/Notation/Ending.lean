import Tabletop.Proofs.Notation.Steps

/-! How the evaluation of a text ends.

An evaluation ends before any operation, at an operation that fails, at text that
belongs to no token, or well. What it does on the source is what its operations do. -/

set_option autoImplicit false

namespace Tabletop

/-- The runs come to the same and do the same on their source. Their records may differ. -/
structure Rolling.Run.Same {σ α : Type} (first second : Rolling.Run σ α) : Prop where
  value : first.value = second.value
  source : first.source = second.source
  asked : first.asked = second.asked

theorem Rolling.Run.Same.trans {σ α : Type} {first second third : Rolling.Run σ α}
    (left : first.Same second) (right : second.Same third) : first.Same third :=
  ⟨left.value.trans right.value, left.source.trans right.source, left.asked.trans right.asked⟩

theorem Rolling.Run.Same.draws {σ α : Type} {first second : Rolling.Run σ α}
    (same : first.Same second) : first.draws = second.draws :=
  congrArg List.length same.asked

namespace Notation

theorem all_isBlank_iff {text : List Char} : text.all isBlank = true ↔ Blank text :=
  List.all_eq_true

theorem Scan.stopped_of_blank {text : List Char} (blank : Blank text) :
    (ofText text).stopped = none :=
  (reads_iff.1 (Reads.of_blank blank)).1

theorem Scan.lexemes_of_blank {text : List Char} (blank : Blank text) :
    (ofText text).lexemes = [] :=
  (reads_iff.1 (Reads.of_blank blank)).2.2

theorem Split.blank_of_clean {position : Nat} {text : List Char} {parts : List Part}
    (split : Split position text parts) (clean : Clean parts []) : Blank text := by
  induction split with
  | done => exact .nil
  | spelled => cases clean
  | loose _ _ ih =>
    cases clean with
    | loose first clean => exact Blank.cons_iff.2 ⟨first, ih clean⟩

/-- What is not a token stays behind, so a text of which nothing stays behind holds one. -/
theorem Scan.lexemes_ne_nil {text : List Char} (visible : ¬Blank text)
    (scanned : (ofText text).stopped = none) (clean : (ofText text).remainder? = none) :
    (ofText text).lexemes ≠ [] := by
  intro none
  obtain ⟨parts, split, clean⟩ := reads_iff.2 ⟨scanned, clean, none⟩
  exact visible (split.blank_of_clean clean)

def resume (limits : Limits) (text : String) (before : Option Roll) :
    Rolling (Except NotationFault Roll) := do
  match ← performAll limits (Scan.ofText text.toList).lexemes before with
  | .ok final => settle text (Scan.ofText text.toList) final
  | .error fault => pure (.error fault)

section
variable {σ : Type} [Source σ] {limits : Limits} {text : String} {source : σ}

theorem run_evaluate_of_blank (blank : Blank text.toList) :
    (evaluate limits text).run source = ⟨.error (.located 0 .blank), source, [], []⟩ := by
  unfold evaluate
  rw [if_pos (all_isBlank_iff.2 blank)]
  rfl

theorem run_evaluate_of_stopped {position : Nat} {numeral : NumeralFault}
    (stopped : (Scan.ofText text.toList).stopped = some (position, numeral)) :
    ((evaluate limits text).run source).Same
      ⟨.error (.located position (.number numeral)), source, [], []⟩ := by
  have visible : ¬text.toList.all isBlank = true := by
    intro blank
    rw [Scan.stopped_of_blank (all_isBlank_iff.1 blank)] at stopped
    cases stopped
  simp only [run_evaluate visible, interpret, stopped]
  exact ⟨rfl, rfl, rfl⟩

theorem run_evaluate_of_scanned (visible : ¬Blank text.toList)
    (scanned : (Scan.ofText text.toList).stopped = none) :
    ((evaluate limits text).run source).Same ((resume limits text none).run source) := by
  rw [← all_isBlank_iff] at visible
  simp only [run_evaluate visible, interpret, scanned]
  exact ⟨rfl, rfl, rfl⟩

variable {before : Option Roll} {first : Rolling.Run σ (Except NotationFault (Option Roll))}
  (ran : (performAll limits (Scan.ofText text.toList).lexemes before).run source = first)
include ran

theorem run_resume_error {fault : NotationFault} (failed : first.value = .error fault) :
    ((resume limits text before).run source).Same ⟨.error fault, first.source, first.asked, []⟩ := by
  simp only [resume, Rolling.run_bind, ran, failed]
  exact ⟨rfl, rfl, List.append_nil _⟩

theorem run_resume_unreadable {final : Option Roll} {position : Nat} {remainder : String}
    (carried : first.value = .ok final)
    (remains : (Scan.ofText text.toList).remainder? = some (position, remainder)) :
    ((resume limits text before).run source).Same
      ⟨.error (.located position (.unreadable remainder)), first.source, first.asked, []⟩ := by
  simp only [resume, Rolling.run_bind, ran, carried, settle, remains]
  exact ⟨rfl, rfl, List.append_nil _⟩

theorem run_resume_ok {roll : Roll} (carried : first.value = .ok (some roll))
    (clean : (Scan.ofText text.toList).remainder? = none) :
    ((resume limits text before).run source).Same ⟨.ok roll, first.source, first.asked, []⟩ := by
  simp only [resume, Rolling.run_bind, ran, carried, settle, clean]
  exact ⟨rfl, rfl, List.append_nil _⟩

omit ran

theorem exists_roll_of_performAll {lexemes : List Lexeme} {final : Option Roll}
    (rolled : lexemes = [] → before.isSome)
    (performed : ((performAll limits lexemes before).run source).value = .ok final) :
    ∃ roll, final = some roll := by
  by_cases none : lexemes = []
  · subst none
    cases performed
    exact Option.isSome_iff_exists.1 (rolled rfl)
  · obtain ⟨_, _, values, _⟩ := @run_performAll _ _ limits lexemes before source
    exact exists_roll_of_steps (by simpa using none) ((values final).1 performed)

/-- The ways in which an evaluation ends, where `first` is the run of its operations. -/
inductive Ending (text : List Char) (source : σ)
    (first : Rolling.Run σ (Except NotationFault (Option Roll)))
    (run : Rolling.Run σ (Except NotationFault Roll)) : Prop where
  | blank (blank : Blank text) (same : run.Same ⟨.error (.located 0 .blank), source, [], []⟩)
  | stopped {position : Nat} {numeral : NumeralFault}
      (stopped : (Scan.ofText text).stopped = some (position, numeral))
      (same : run.Same ⟨.error (.located position (.number numeral)), source, [], []⟩)
  | failed {fault : NotationFault} (visible : ¬Blank text)
      (scanned : (Scan.ofText text).stopped = none) (failed : first.value = .error fault)
      (same : run.Same ⟨.error fault, first.source, first.asked, []⟩)
  | unreadable {final : Option Roll} {position : Nat} {remainder : String} (visible : ¬Blank text)
      (scanned : (Scan.ofText text).stopped = none) (carried : first.value = .ok final)
      (remains : (Scan.ofText text).remainder? = some (position, remainder))
      (same : run.Same
        ⟨.error (.located position (.unreadable remainder)), first.source, first.asked, []⟩)
  | evaluated {roll : Roll} (visible : ¬Blank text) (scanned : (Scan.ofText text).stopped = none)
      (carried : first.value = .ok (some roll)) (clean : (Scan.ofText text).remainder? = none)
      (same : run.Same ⟨.ok roll, first.source, first.asked, []⟩)

/-- A text is never unreadable for want of a token alone: where it holds none, something else is
left behind. -/
theorem evaluate_ending (limits : Limits) (text : String) (source : σ) :
    Ending text.toList source
      ((performAll limits (Scan.ofText text.toList).lexemes none).run source)
      ((evaluate limits text).run source) := by
  by_cases blank : Blank text.toList
  · exact .blank blank (by rw [run_evaluate_of_blank blank]; exact ⟨rfl, rfl, rfl⟩)
  cases scanned : (Scan.ofText text.toList).stopped with
  | some stop => exact .stopped scanned (run_evaluate_of_stopped scanned)
  | none =>
    have resumed := @run_evaluate_of_scanned _ _ limits _ source blank scanned
    cases performed : ((performAll limits (Scan.ofText text.toList).lexemes none).run source).value with
    | error fault => exact .failed blank scanned performed (resumed.trans (run_resume_error rfl performed))
    | ok final =>
      cases remains : (Scan.ofText text.toList).remainder? with
      | some found =>
        exact .unreadable blank scanned performed remains
          (resumed.trans (run_resume_unreadable rfl performed remains))
      | none =>
        have some_lexeme := Scan.lexemes_ne_nil blank scanned remains
        obtain ⟨roll, rfl⟩ := exists_roll_of_performAll (absurd · some_lexeme) performed
        exact .evaluated blank scanned performed remains
          (resumed.trans (run_resume_ok rfl performed remains))

theorem evaluated_of_ok {roll : Roll}
    (rolled : ((evaluate limits text).run source).value = .ok roll) :
    ¬Blank text.toList ∧ (Scan.ofText text.toList).stopped = none ∧
      (Scan.ofText text.toList).remainder? = none ∧
      ((performAll limits (Scan.ofText text.toList).lexemes none).run source).Same
        ⟨.ok (some roll), ((evaluate limits text).run source).source,
          ((evaluate limits text).run source).asked, []⟩ := by
  cases evaluate_ending limits text source with
  | evaluated visible scanned carried clean same =>
    cases same.value.symm.trans rolled
    exact ⟨visible, scanned, clean, carried, same.source.symm, same.asked.symm⟩
  | blank _ same | stopped _ same | failed _ _ _ same | unreadable _ _ _ _ same =>
    rw [same.value] at rolled
    cases rolled

end

end Notation

end Tabletop
