import Tabletop.Proofs.Notation.Ending
import Tabletop.Proofs.Notation.Joined

/-! Evaluating one text behind another.

With blanks between them, the second text goes on from the roll and from the source
that the first one left. Its faults are found further on, by the length of what stands
in front of it. A number out of range is found before any operation is performed, and
text that belongs to no token after all of them, so it depends on the kinds of two
faults which of them is met. -/

set_option autoImplicit false

namespace Tabletop

def NotationFault.moved (distance : Nat) : NotationFault → NotationFault
  | .located position cause => .located (distance + position) cause
  | fault => fault

/-- The run of a text at a place further on, behind draws with these bounds. -/
def Rolling.Run.behind {σ α : Type} (distance : Nat) (asked : List Nat)
    (run : Rolling.Run σ (Except NotationFault α)) : Rolling.Run σ (Except NotationFault α) :=
  { run with
    value := run.value.mapError (NotationFault.moved distance)
    asked := asked ++ run.asked }

theorem Rolling.Run.Same.behind {σ α : Type} {first second : Rolling.Run σ (Except NotationFault α)}
    (same : first.Same second) (distance : Nat) (asked : List Nat) :
    (first.behind distance asked).Same (second.behind distance asked) where
  value := congrArg (Except.mapError _) same.value
  source := same.source
  asked := congrArg (asked ++ ·) same.asked

theorem Rolling.Run.Same.symm {σ α : Type} {first second : Rolling.Run σ α}
    (same : first.Same second) : second.Same first :=
  ⟨same.value.symm, same.source.symm, same.asked.symm⟩

namespace Notation

theorem performAll_append (limits : Limits) (first second : List Lexeme) (before : Option Roll) :
    performAll limits (first ++ second) before = (do
      match ← performAll limits first before with
      | .ok middle => performAll limits second middle
      | .error fault => pure (.error fault)) := by
  induction first generalizing before with
  | nil => rfl
  | cons lexeme first ih =>
    simp only [List.cons_append, performAll, bind_assoc]
    refine bind_congr fun performed => ?_
    cases performed with
    | ok roll => exact ih (some roll)
    | error fault => rfl

theorem performAll_moved (limits : Limits) (distance : Nat) (lexemes : List Lexeme)
    (before : Option Roll) :
    performAll limits (lexemes.map (Lexeme.moved distance)) before =
      (·.mapError (NotationFault.moved distance)) <$> performAll limits lexemes before := by
  induction lexemes generalizing before with
  | nil => rfl
  | cons lexeme rest ih =>
    simp only [List.map_cons, performAll, Lexeme.moved, perform_eq_step, map_eq_pure_bind,
      bind_assoc, pure_bind] at ih ⊢
    refine bind_congr fun result => ?_
    cases result with
    | ok roll => exact ih (some roll)
    | error refusal =>
      simp only [Except.mapError, locate_report]
      rfl

theorem performAll_of_dice {limits : Limits} {lexemes : List Lexeme}
    (dice : ∃ lexeme ∈ lexemes.head?, lexeme.token.IsDice) (before : Option Roll) :
    performAll limits lexemes before = performAll limits lexemes none := by
  obtain ⟨⟨token, position, text⟩, head, dice⟩ := dice
  obtain ⟨rest, rfl⟩ := List.head?_eq_some_iff.1 head
  cases token with
  | dice count faces => rfl
  | keep | drop | keepValues | dropValues | explode => exact dice.elim

section
variable {σ : Type} [Source σ] {limits : Limits} {source : σ}

theorem run_performAll_append_ok {first : List Lexeme} {before middle : Option Roll}
    (second : List Lexeme)
    (carried : ((performAll limits first before).run source).value = .ok middle) :
    (performAll limits (first ++ second) before).run source =
      let head := (performAll limits first before).run source
      let tail := (performAll limits second middle).run head.source
      { tail with asked := head.asked ++ tail.asked, log := head.log ++ tail.log } := by
  simp only [performAll_append, Rolling.run_bind, carried]

theorem run_performAll_append_error {first second : List Lexeme} {before : Option Roll}
    {fault : NotationFault}
    (failed : ((performAll limits first before).run source).value = .error fault) :
    ((performAll limits (first ++ second) before).run source).Same
      ((performAll limits first before).run source) := by
  simp only [performAll_append, Rolling.run_bind, failed]
  exact ⟨failed.symm, rfl, List.append_nil _⟩

theorem run_performAll_moved (distance : Nat) (lexemes : List Lexeme) (before : Option Roll) :
    (performAll limits (lexemes.map (Lexeme.moved distance)) before).run source =
      let run := (performAll limits lexemes before).run source
      { run with value := run.value.mapError (NotationFault.moved distance) } := by
  rw [performAll_moved, Rolling.run_map]

/-- An operation does not fail for a number: those are read before. -/
theorem cause_performAll_ne_number {lexemes : List Lexeme} {before : Option Roll}
    {fault : NotationFault}
    (failed : ((performAll limits lexemes before).run source).value = .error fault)
    (numeral : NumeralFault) : fault.cause ≠ .number numeral := by
  obtain ⟨_, _, _, faults⟩ := @run_performAll _ _ limits lexemes before source
  obtain ⟨_, _, _, refusal, _, _, rfl⟩ := (faults fault).1 failed
  change refusal.report _ ≠ _
  unfold Refusal.report
  split <;> simp

variable {first gap second : String}

theorem toList_joined :
    (first ++ gap ++ second).toList = first.toList ++ (gap.toList ++ second.toList) := by
  rw [String.toList_append, String.toList_append, List.append_assoc]

theorem visible_joined (visible : ¬Blank first.toList) : ¬Blank (first ++ gap ++ second).toList := by
  rw [toList_joined, Blank.append_iff]
  exact fun both => visible both.1

section
variable (blank : Blank gap.toList) (some_blank : gap.toList ≠ [])
  (scanned : (Scan.ofText first.toList).stopped = none)
include blank some_blank scanned

theorem lexemes_joined :
    (Scan.ofText (first ++ gap ++ second).toList).lexemes =
      (Scan.ofText first.toList).lexemes ++
        (Scan.ofText second.toList).lexemes.map (Lexeme.moved (first.length + gap.length)) := by
  rw [toList_joined, Scan.ofText_joined_of_scanned blank some_blank scanned]
  rfl

theorem stopped_joined (second : String) :
    (Scan.ofText (first ++ gap ++ second).toList).stopped =
      (Scan.ofText second.toList).stopped.map
        fun stop => (first.length + gap.length + stop.1, stop.2) := by
  rw [toList_joined, Scan.ofText_joined_of_scanned blank some_blank scanned]
  rfl

theorem run_resume_joined {roll : Roll} {left : σ} {asked : List Nat}
    (clean : (Scan.ofText first.toList).remainder? = none)
    (carried : ((performAll limits (Scan.ofText first.toList).lexemes none).run source).Same
      ⟨.ok (some roll), left, asked, []⟩) :
    ((resume limits (first ++ gap ++ second) none).run source).Same
      (((resume limits second (some roll)).run left).behind (first.length + gap.length) asked) := by
  have remains := Scan.remainder?_joined second.toList blank some_blank scanned clean
  rw [← toList_joined] at remains
  -- Behind the operations of the first text come those of the second one, further on.
  have whole := run_performAll_append_ok
    ((Scan.ofText second.toList).lexemes.map (Lexeme.moved (first.length + gap.length)))
    carried.value
  simp only [← lexemes_joined blank some_blank scanned, run_performAll_moved, carried.source,
    carried.asked] at whole
  cases performed : ((performAll limits (Scan.ofText second.toList).lexemes (some roll)).run
      left).value with
  | error fault =>
    have joined := run_resume_error whole (by rw [performed]; rfl)
    exact joined.trans ((run_resume_error rfl performed).symm.behind _ _)
  | ok final =>
    obtain ⟨last, rfl⟩ := exists_roll_of_performAll (fun _ => rfl) performed
    cases left : (Scan.ofText second.toList).remainder? with
    | some found =>
      rw [left] at remains
      have joined := run_resume_unreadable whole (by rw [performed]; rfl) remains
      exact joined.trans ((run_resume_unreadable rfl performed left).symm.behind _ _)
    | none =>
      rw [left] at remains
      have joined := run_resume_ok whole (by rw [performed]; rfl) remains
      exact joined.trans ((run_resume_ok rfl performed left).symm.behind _ _)

omit scanned

theorem evaluate_behind_roll {roll : Roll}
    (rolled : ((evaluate limits first).run source).value = .ok roll)
    (readable : (Scan.ofText second.toList).stopped = none) :
    let before := (evaluate limits first).run source
    ((evaluate limits (first ++ gap ++ second)).run source).Same
      (((resume limits second (some roll)).run before.source).behind (first.length + gap.length)
        before.asked) := by
  intro before
  obtain ⟨visible, scanned, clean, carried⟩ := evaluated_of_ok rolled
  have stopped := stopped_joined blank some_blank scanned second
  rw [readable] at stopped
  exact (run_evaluate_of_scanned (visible_joined visible) stopped).trans
    (run_resume_joined blank some_blank scanned clean carried)

theorem evaluate_before_number {roll : Roll} {position : Nat} {numeral : NumeralFault}
    (rolled : ((evaluate limits first).run source).value = .ok roll)
    (unreadable : (Scan.ofText second.toList).stopped = some (position, numeral)) :
    ((evaluate limits (first ++ gap ++ second)).run source).Same
      ⟨.error (.located (first.length + gap.length + position) (.number numeral)), source, [], []⟩ := by
  obtain ⟨_, scanned, _, _⟩ := evaluated_of_ok rolled
  have stopped := stopped_joined blank some_blank scanned second
  rw [unreadable] at stopped
  exact run_evaluate_of_stopped stopped

theorem evaluate_behind_fault {fault : NotationFault}
    (failed : ((evaluate limits first).run source).value = .error fault)
    (not_blank : fault.cause ≠ .blank) (not_unreadable : ∀ text, fault.cause ≠ .unreadable text)
    (first_met : (Scan.ofText second.toList).stopped = none ∨
      ∃ numeral, fault.cause = .number numeral) :
    ((evaluate limits (first ++ gap ++ second)).run source).Same
      ((evaluate limits first).run source) := by
  cases evaluate_ending limits first source with
  | blank _ same =>
    cases same.value.symm.trans failed
    exact absurd rfl not_blank
  | unreadable _ _ _ _ same =>
    cases same.value.symm.trans failed
    exact absurd rfl (not_unreadable _)
  | evaluated _ _ _ _ same => cases same.value.symm.trans failed
  | stopped stopped same =>
    refine (run_evaluate_of_stopped ?_).trans same.symm
    rw [toList_joined, Scan.ofText_joined_of_stopped blank some_blank stopped]
    exact stopped
  | failed visible scanned performed same =>
    cases same.value.symm.trans failed
    have readable : (Scan.ofText second.toList).stopped = none := by
      rcases first_met with readable | ⟨numeral, number⟩
      · exact readable
      · exact absurd number (cause_performAll_ne_number performed numeral)
    have stopped := stopped_joined blank some_blank scanned second
    rw [readable] at stopped
    -- The operations of the second text are behind the one that fails.
    have whole : ((performAll limits (Scan.ofText (first ++ gap ++ second).toList).lexemes none).run
        source).Same ((performAll limits (Scan.ofText first.toList).lexemes none).run source) := by
      rw [lexemes_joined blank some_blank scanned]
      exact run_performAll_append_error performed
    have joined := (run_evaluate_of_scanned (visible_joined visible) stopped).trans
      (run_resume_error rfl (whole.value.trans performed))
    rw [whole.source, whole.asked] at joined
    exact joined.trans same.symm

end

end

/-- A text with blanks between it and the one in front of it. If the first text is evaluated to a
roll, the second one goes on from that roll and the source left, and from nothing but the source if
it begins with dice; a number out of range in it is met before any operation. If the first text
fails, other than for want of tokens or for text that belongs to none, nothing behind it matters but
a number out of range. -/
theorem evaluate_joined {σ : Type} [Source σ] {gap : String} (blank : Blank gap.toList)
    (some_blank : gap.toList ≠ []) (limits : Limits) (first second : String) (source : σ) :
    let distance := first.length + gap.length
    let before := (evaluate limits first).run source
    let whole := (evaluate limits (first ++ gap ++ second)).run source
    let scan := Scan.ofText second.toList
    (∀ roll, before.value = .ok roll → scan.stopped = none →
      let rest := (resume limits second (some roll)).run before.source
      whole.Same (rest.behind distance before.asked)) ∧
    (∀ roll, before.value = .ok roll → scan.stopped = none →
      (∃ lexeme ∈ scan.lexemes.head?, lexeme.token.IsDice) →
      let rest := (evaluate limits second).run before.source
      whole.Same (rest.behind distance before.asked)) ∧
    (∀ roll, before.value = .ok roll → scan.stopped ≠ none →
      let alone := (evaluate limits second).run source
      (∃ position numeral, alone.value = .error (.located position (.number numeral))) ∧
        alone.asked = [] ∧ whole.Same (alone.behind distance [])) ∧
    (∀ fault, before.value = .error fault → fault.cause ≠ .blank →
      (∀ text, fault.cause ≠ .unreadable text) →
      (scan.stopped = none ∨ ∃ numeral, fault.cause = .number numeral) → whole.Same before) := by
  intro distance before whole scan
  refine ⟨?_, ?_, ?_, ?_⟩
  · intro roll rolled readable
    exact evaluate_behind_roll blank some_blank rolled readable
  · intro roll rolled readable dice
    have visible : ¬Blank second.toList := by
      intro nothing
      obtain ⟨lexeme, head, _⟩ := dice
      rw [Scan.lexemes_of_blank nothing] at head
      cases head
    have alone : ((evaluate limits second).run before.source).Same
        ((resume limits second (some roll)).run before.source) := by
      unfold resume
      rw [performAll_of_dice dice]
      exact run_evaluate_of_scanned visible readable
    exact (evaluate_behind_roll blank some_blank rolled readable).trans (alone.symm.behind _ _)
  · intro roll rolled unreadable
    obtain ⟨⟨position, numeral⟩, stopped⟩ := Option.ne_none_iff_exists'.1 unreadable
    have alone := @run_evaluate_of_stopped _ _ limits _ source _ _ stopped
    refine ⟨⟨position, numeral, alone.value⟩, alone.asked, ?_⟩
    exact (evaluate_before_number blank some_blank rolled stopped).trans (alone.symm.behind distance [])
  · intro fault failed not_blank not_unreadable first_met
    exact evaluate_behind_fault blank some_blank failed not_blank not_unreadable first_met

theorem evaluate_joined_dice :
    let run := (evaluate .standard ("2d6X6" ++ "\t" ++ "1d6 ?")).run (Scripted.ofValues [6, 3, 4, 5])
    run.value = .error (.located 10 (.unreadable "?")) ∧ run.draws = 4 := by
  obtain ⟨_, behind, _⟩ := @evaluate_joined _ _ "\t" (by decide) (by decide) .standard "2d6X6"
    "1d6 ?" (Scripted.ofValues [6, 3, 4, 5])
  have rolled : ((evaluate .standard "2d6X6").run (Scripted.ofValues [6, 3, 4, 5])).value =
      .ok ⟨Die.d6, [.numbered 6, .numbered 3, .numbered 4]⟩ := by decide +kernel
  have whole := behind _ rolled (by decide) ⟨_, rfl, trivial⟩
  exact ⟨whole.value, congrArg List.length whole.asked⟩

end Notation

end Tabletop
