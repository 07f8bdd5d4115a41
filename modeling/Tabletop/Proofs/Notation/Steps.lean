import Tabletop.Notation.Evaluate
import Tabletop.Proofs.Notation.Written

/-! Notation does what its operations do one after the other.

The operations are carried out here with the dice and the rolls alone, without any
text. Evaluating the text that spells them ends in the same roll after the same
draws, or with the report of the first refusal, at the token it concerns. -/

set_option autoImplicit false

namespace Tabletop.Notation

inductive Refusal where
  | nothingRolled
  | overLimit
  /-- The list has as many values as the die. -/
  | covering
  | faulty (fault : Fault)

/-- The fault of notation for a refusal, which quotes the text of the operation. -/
def Refusal.report (text : String) : Refusal → NotationFault
  | .nothingRolled => .notDice text
  | .overLimit => .invalidDice text
  | .covering => .coveringSet text
  | .faulty (.tooFewValues _) | .faulty .zeroValue => .invalidDice text
  | .faulty (.countOutOfRange _ _) => .invalidCount text
  | .faulty fault => .badRoll fault

def narrowed (roll : Roll) (values : List Nat) : Except Refusal ValueSet :=
  let set := ValueSet.ofList (values.map Int.ofNat)
  if roll.die.distinct ≤ set.size then .error .covering else .ok set

def step (limits : Limits) : Token → Option Roll → Rolling (Except Refusal Roll)
  | .dice count faces, _ =>
    if limits.dice < count ∨ limits.faces < faces then pure (.error .overLimit)
    else
      match Die.numbered faces >>= Dice.ofCount count with
      | .ok dice => .ok <$> dice.roll
      | .error fault => pure (.error (.faulty fault))
  | _, none => pure (.error .nothingRolled)
  | .keep side count, some roll => pure ((roll.keep count side).mapError .faulty)
  | .drop side count, some roll => pure ((roll.drop count side).mapError .faulty)
  | .keepValues values, some roll => pure ((narrowed roll values).map roll.keepValues)
  | .dropValues values, some roll => pure ((narrowed roll values).map roll.dropValues)
  | .explode values, some roll =>
    match narrowed roll values with
    | .ok set => (·.mapError .faulty) <$> roll.explode set limits.explosion
    | .error refusal => pure (.error refusal)

def steps (limits : Limits) : List Token → Option Roll → Rolling (Except Refusal (Option Roll))
  | [], before => pure (.ok before)
  | token :: rest, before => do
    match ← step limits token before with
    | .ok roll => steps limits rest (some roll)
    | .error refusal => pure (.error refusal)

theorem mapError_select (roll : Roll) (count : Nat) (choose : List Face → List Face)
    (text : String) :
    (roll.select count choose).mapError (fun _ => NotationFault.invalidCount text) =
      ((roll.select count choose).mapError Refusal.faulty).mapError (Refusal.report text) := by
  unfold Roll.select
  by_cases enough : count ≤ roll.size
  · rw [if_pos enough]
    rfl
  · rw [if_neg enough]
    rfl

theorem targets_eq_narrowed (roll : Roll) (values : List Nat) (text : String) :
    targets roll values text = (narrowed roll values).mapError (Refusal.report text) := by
  unfold targets narrowed
  by_cases covering : roll.die.distinct ≤ (ValueSet.ofList (values.map Int.ofNat)).size
  · simp only [if_neg (Nat.not_lt.2 covering), if_pos covering]
    rfl
  · simp only [if_pos (Nat.lt_of_not_le covering), if_neg covering]
    rfl

/-- An explosion fails in one way only, so nothing else about its fault matters. -/
theorem map_explodeOnto {β : Type} {roll : Roll} {set : ValueSet} {limit left due : Nat}
    {added : List Face} {first second : Except Fault Roll → β}
    (ok : ∀ exploded, first (.ok exploded) = second (.ok exploded))
    (pending : first (.error (.explosionPending limit)) = second (.error (.explosionPending limit))) :
    first <$> roll.explodeOnto set limit left due added =
      second <$> roll.explodeOnto set limit left due added := by
  -- Both results are read at the leaves only, and the rerolls before them are the same.
  fun_induction roll.explodeOnto set limit left due added with
  | case1 => simp [map_eq_pure_bind, ok]
  | case2 => simp [map_eq_pure_bind, pending]
  | case3 left due added ih =>
    simp only [map_eq_pure_bind, bind_assoc, Rolling.note_bind] at ih ⊢
    apply bind_congr
    intro face
    exact congrArg _ (ih face)

theorem numbered_cases (count faces : Nat) :
    (∃ dice, Die.numbered faces >>= Dice.ofCount count = .ok dice ∧ dice.count = count) ∨
    Die.numbered faces >>= Dice.ofCount count = .error .zeroValue ∨
    ∃ distinct, Die.numbered faces >>= Dice.ofCount count = .error (.tooFewValues distinct) := by
  unfold Die.numbered Die.ofFaces
  split
  · unfold Dice.ofCount
    by_cases positive : 0 < count
    · exact .inl ⟨_, dif_pos positive, rfl⟩
    · exact .inr (.inl (dif_neg positive))
  · exact .inr (.inr ⟨_, rfl⟩)

theorem report_numbered {count faces : Nat} {fault : Fault} {text : String}
    (refused : Die.numbered faces >>= Dice.ofCount count = .error fault) :
    (Refusal.faulty fault).report text = .invalidDice text := by
  rcases numbered_cases count faces with ⟨_, made, _⟩ | none | ⟨_, few⟩
  · rw [made] at refused
    cases refused
  · rw [none] at refused
    cases refused
    rfl
  · rw [few] at refused
    cases refused
    rfl

theorem perform_dice (limits : Limits) (text : String) (count faces : Nat) (before : Option Roll) :
    perform limits text (.dice count faces) before =
      (·.mapError (Refusal.report text)) <$> step limits (.dice count faces) before := by
  simp only [perform, step, Limits.dice?]
  by_cases many : limits.dice < count ∨ limits.faces < faces
  · rw [if_pos many, if_neg (by omega)]
    rfl
  · rw [if_neg many, if_pos (by omega)]
    cases made : Die.numbered faces >>= Dice.ofCount count with
    | ok dice =>
      simp only [Except.toOption, Functor.map_map]
      rfl
    | error fault =>
      have same : (Refusal.faulty fault).report text = .invalidDice text := report_numbered made
      change Rolling.done (Except.error (NotationFault.invalidDice text)) =
        Rolling.done (Except.error ((Refusal.faulty fault).report text))
      rw [same]

theorem perform_eq_step (limits : Limits) (text : String) (token : Token) (before : Option Roll) :
    perform limits text token before =
      (·.mapError (Refusal.report text)) <$> step limits token before := by
  cases token with
  | dice count faces => exact perform_dice limits text count faces before
  | keep side count =>
    cases before with
    | none => rfl
    | some roll => cases side <;> exact congrArg _ (mapError_select _ _ _ _)
  | drop side count =>
    cases before with
    | none => rfl
    | some roll => cases side <;> exact congrArg _ (mapError_select _ _ _ _)
  | keepValues values =>
    cases before with
    | none => rfl
    | some roll =>
      simp only [perform, step, targets_eq_narrowed]
      cases narrowed roll values <;> rfl
  | dropValues values =>
    cases before with
    | none => rfl
    | some roll =>
      simp only [perform, step, targets_eq_narrowed]
      cases narrowed roll values <;> rfl
  | explode values =>
    cases before with
    | none => rfl
    | some roll =>
      simp only [perform, step, targets_eq_narrowed]
      cases narrowed roll values with
      | error refusal => rfl
      | ok set =>
        simp only [Except.mapError, Functor.map_map]
        exact map_explodeOnto (fun _ => rfl) rfl

section
variable {σ : Type} [Source σ] {limits : Limits}

theorem run_perform (text : String) (token : Token) (before : Option Roll) (source : σ) :
    (perform limits text token before).run source =
      let run := (step limits token before).run source
      { run with value := run.value.mapError (Refusal.report text) } := by
  rw [perform_eq_step, Rolling.run_map]

/-- Earlier operations are carried out, and then one is refused. -/
def Refused (limits : Limits) (earlier : List Token) (token : Token) (before : Option Roll)
    (source : σ) (refusal : Refusal) : Prop :=
  ∃ last, ((steps limits earlier before).run source).value = .ok last ∧
    ((step limits token last).run ((steps limits earlier before).run source).source).value =
      .error refusal

theorem run_steps_ok {token : Token} {rest : List Token} {before : Option Roll} {source : σ}
    {roll : Roll} (carried : ((step limits token before).run source).value = .ok roll) :
    (steps limits (token :: rest) before).run source =
      let first := (step limits token before).run source
      let second := (steps limits rest (some roll)).run first.source
      { second with asked := first.asked ++ second.asked, log := first.log ++ second.log } := by
  simp only [steps, Rolling.run_bind, carried]

theorem run_steps_error {token : Token} {rest : List Token} {before : Option Roll} {source : σ}
    {refusal : Refusal} (refused : ((step limits token before).run source).value = .error refusal) :
    (steps limits (token :: rest) before).run source =
      let first := (step limits token before).run source
      { first with value := .error refusal } := by
  simp [steps, Rolling.run_bind, refused]

theorem refused_nil {token : Token} {before : Option Roll} {source : σ} {refusal : Refusal} :
    Refused limits [] token before source refusal ↔
      ((step limits token before).run source).value = .error refusal := by
  simp [Refused, steps]

theorem refused_cons {token other : Token} {earlier : List Token} {before : Option Roll}
    {source : σ} {roll : Roll} {refusal : Refusal}
    (carried : ((step limits token before).run source).value = .ok roll) :
    Refused limits (token :: earlier) other before source refusal ↔
      Refused limits earlier other (some roll) ((step limits token before).run source).source
        refusal := by
  unfold Refused
  simp only [run_steps_ok carried]

theorem not_refused_cons {token other : Token} {earlier : List Token} {before : Option Roll}
    {source : σ} {first refusal : Refusal}
    (refused : ((step limits token before).run source).value = .error first) :
    ¬Refused limits (token :: earlier) other before source refusal := by
  intro later
  obtain ⟨last, carried, _⟩ := later
  rw [run_steps_error refused] at carried
  cases carried

def Reported (limits : Limits) (lexemes : List Lexeme) (before : Option Roll) (source : σ)
    (fault : NotationFault) : Prop :=
  ∃ earlier lexeme later refusal, lexemes = earlier ++ lexeme :: later ∧
    Refused limits (earlier.map Lexeme.token) lexeme.token before source refusal ∧
    fault = .located lexeme.position (refusal.report lexeme.text)

theorem reported_cons_ok {lexeme : Lexeme} {rest : List Lexeme} {before : Option Roll} {source : σ}
    {roll : Roll} {fault : NotationFault}
    (carried : ((step limits lexeme.token before).run source).value = .ok roll) :
    Reported limits (lexeme :: rest) before source fault ↔
      Reported limits rest (some roll) ((step limits lexeme.token before).run source).source
        fault := by
  constructor
  · intro reported
    obtain ⟨earlier, other, later, refusal, same, refused, rfl⟩ := reported
    cases earlier with
    | nil =>
      cases same
      rw [List.map_nil, refused_nil, carried] at refused
      cases refused
    | cons first earlier =>
      cases same
      exact ⟨earlier, other, later, refusal, rfl, (refused_cons carried).1 refused, rfl⟩
  · rintro ⟨earlier, other, later, refusal, rfl, refused, rfl⟩
    exact ⟨lexeme :: earlier, other, later, refusal, rfl, (refused_cons carried).2 refused, rfl⟩

theorem reported_cons_error {lexeme : Lexeme} {rest : List Lexeme} {before : Option Roll}
    {source : σ} {refusal : Refusal} {fault : NotationFault}
    (refused : ((step limits lexeme.token before).run source).value = .error refusal) :
    Reported limits (lexeme :: rest) before source fault ↔
      fault = .located lexeme.position (refusal.report lexeme.text) := by
  constructor
  · intro reported
    obtain ⟨earlier, other, later, another, same, also, rfl⟩ := reported
    cases earlier with
    | nil =>
      cases same
      rw [List.map_nil, refused_nil, refused] at also
      cases also
      rfl
    | cons first earlier =>
      cases same
      exact absurd also (not_refused_cons refused)
  · rintro rfl
    exact ⟨[], lexeme, rest, refusal, rfl, refused_nil.2 refused, rfl⟩

theorem locate_report (position : Nat) (refusal : Refusal) (text : String) :
    (refusal.report text).locate position = .located position (refusal.report text) := by
  unfold Refusal.report
  split <;> rfl

section
variable {lexeme : Lexeme} {rest : List Lexeme} {before : Option Roll} {source : σ}

theorem run_performAll_ok {roll : Roll}
    (carried : ((step limits lexeme.token before).run source).value = .ok roll) :
    (performAll limits (lexeme :: rest) before).run source =
      let first := (step limits lexeme.token before).run source
      let second := (performAll limits rest (some roll)).run first.source
      { second with asked := first.asked ++ second.asked, log := first.log ++ second.log } := by
  simp only [performAll, Rolling.run_bind, run_perform, carried, Except.mapError]

theorem run_performAll_error {refusal : Refusal}
    (refused : ((step limits lexeme.token before).run source).value = .error refusal) :
    (performAll limits (lexeme :: rest) before).run source =
      let first := (step limits lexeme.token before).run source
      { first with value := .error (.located lexeme.position (refusal.report lexeme.text)) } := by
  simp [performAll, Rolling.run_bind, run_perform, refused, Except.mapError, locate_report]

end

theorem run_performAll (lexemes : List Lexeme) (before : Option Roll) (source : σ) :
    let read := (performAll limits lexemes before).run source
    let direct := (steps limits (lexemes.map Lexeme.token) before).run source
    read.source = direct.source ∧ read.asked = direct.asked ∧
      (∀ last, read.value = .ok last ↔ direct.value = .ok last) ∧
      ∀ fault, read.value = .error fault ↔ Reported limits lexemes before source fault := by
  -- What a lexeme leaves, the roll and the source, is what the rest goes on with.
  induction lexemes generalizing before source with
  | nil => simp [performAll, steps, Reported]
  | cons lexeme rest ih =>
    cases carried : ((step limits lexeme.token before).run source).value with
    | ok roll =>
      obtain ⟨sources, asked, values, faults⟩ :=
        ih (some roll) ((step limits lexeme.token before).run source).source
      simp only [run_performAll_ok carried, List.map_cons, run_steps_ok carried,
        reported_cons_ok carried]
      exact ⟨sources, by rw [asked], values, faults⟩
    | error refusal =>
      simp only [run_performAll_error carried, List.map_cons, run_steps_error carried,
        reported_cons_error carried]
      simp [eq_comm]

theorem run_recordAll (entries : List Record) (source : σ) :
    (Rolling.recordAll entries).run source = ⟨(), source, [], entries⟩ := by
  induction entries with
  | nil => rfl
  | cons entry rest ih =>
    change (Rolling.note entry (Rolling.recordAll rest)).run source = _
    rw [Rolling.run_note, ih]

theorem exists_roll_of_steps {tokens : List Token} {before last : Option Roll} {source : σ}
    (some_token : tokens ≠ [])
    (carried : ((steps limits tokens before).run source).value = .ok last) :
    ∃ roll, last = some roll := by
  induction tokens generalizing before source with
  | nil => exact absurd rfl some_token
  | cons token rest ih =>
    cases first : ((step limits token before).run source).value with
    | error refusal =>
      rw [run_steps_error first] at carried
      cases carried
    | ok roll =>
      rw [run_steps_ok first] at carried
      cases rest with
      | nil =>
        cases carried
        exact ⟨roll, rfl⟩
      | cons second rest => exact ih (by simp) carried

theorem run_evaluate {input : String} (visible : ¬input.toList.all isBlank = true) (source : σ) :
    (evaluate limits input).run source =
      let scan := Scan.ofText input.toList
      let rest := (interpret limits input scan).run source
      { rest with
        log := (scan.lexemes.map fun lexeme => .lexeme lexeme.token lexeme.position) ++ rest.log } := by
  unfold evaluate
  rw [if_neg visible, Rolling.run_bind, run_recordAll]
  rfl

theorem run_evaluate_of_reads {input : String} {lexemes : List Lexeme} {source : σ}
    (reads : Reads 0 input.toList lexemes) (some_lexeme : lexemes ≠ []) :
    let read := (evaluate limits input).run source
    let direct := (steps limits (lexemes.map Lexeme.token) none).run source
    read.source = direct.source ∧ read.asked = direct.asked ∧
      (∀ roll, read.value = .ok roll ↔ direct.value = .ok (some roll)) ∧
      ∀ fault, read.value = .error fault ↔ Reported limits lexemes none source fault := by
  have visible : ¬input.toList.all isBlank = true := by
    -- A blank text is read as no lexemes.
    intro all
    exact some_lexeme (reads.unique (.of_blank (List.all_eq_true.1 all)))
  obtain ⟨stopped, remainder, same⟩ := reads_iff.1 reads
  change (Scan.ofText input.toList).stopped = none at stopped
  change (Scan.ofText input.toList).remainder? = none at remainder
  change (Scan.ofText input.toList).lexemes = lexemes at same
  obtain ⟨sources, asked, values, faults⟩ := @run_performAll _ _ limits lexemes none source
  rw [run_evaluate visible]
  simp only [interpret, stopped, same, Rolling.run_bind]
  cases performed : ((performAll limits lexemes none).run source).value with
  | error fault =>
    rw [performed] at values faults
    simp only [Rolling.pure_eq_done, Rolling.run_done, List.append_nil]
    refine ⟨sources, asked, ?_, ?_⟩
    · intro roll
      rw [← values]
      simp
    · intro other
      rw [← faults]
      simp
  | ok final =>
    rw [performed] at values faults
    -- Operations leave a roll, so the text is not unreadable for want of one.
    have carried := (values final).1 rfl
    obtain ⟨roll, rfl⟩ := exists_roll_of_steps (by simpa using some_lexeme) carried
    simp only [settle, remainder, Rolling.run_note, Rolling.pure_eq_done, Rolling.run_done,
      List.append_nil]
    refine ⟨sources, asked, ?_, ?_⟩
    · intro other
      rw [← values]
      simp
    · intro fault
      rw [← faults]
      simp

/-- What is written is evaluated as its operations are carried out, with the same draws. If one of
them is refused, the fault is reported where that operation stands. -/
theorem evaluate_written {entries : List (List Char × Token)} {trail : List Char}
    (some_entry : entries ≠ []) (spaced : Spaced entries)
    (writable : ∀ entry ∈ entries, entry.2.Writable) (trailing : Blank trail) (limits : Limits)
    (source : σ) :
    let read := (evaluate limits (String.ofList (written entries ++ trail))).run source
    let direct := (steps limits (entries.map Prod.snd) none).run source
    read.source = direct.source ∧ read.asked = direct.asked ∧
      (∀ roll, read.value = .ok roll ↔ direct.value = .ok (some roll)) ∧
      ∀ fault, read.value = .error fault ↔
        ∃ before gap token after refusal, entries = before ++ (gap, token) :: after ∧
          Refused limits (before.map Prod.snd) token none source refusal ∧
          fault = .located ((written before).length + gap.length) (refusal.report token.text) := by
  have reads : Reads 0 (String.ofList (written entries ++ trail)).toList
      (writtenLexemes 0 entries) := by
    rw [String.toList_ofList]
    exact reads_written spaced writable trailing
  have some_lexeme : writtenLexemes 0 entries ≠ [] := by
    cases entries with
    | nil => exact absurd rfl some_entry
    | cons entry rest => simp [writtenLexemes]
  -- The lexemes read are those written, so it remains to find the entry of a lexeme.
  obtain ⟨sources, asked, values, faults⟩ :=
    @run_evaluate_of_reads _ _ limits _ _ source reads some_lexeme
  rw [map_token_writtenLexemes] at sources asked values
  refine ⟨sources, asked, values, ?_⟩
  intro fault
  rw [faults]
  constructor
  · intro reported
    obtain ⟨earlier, lexeme, later, refusal, split, refused, rfl⟩ := reported
    obtain ⟨before, gap, token, after, rfl, rfl, rfl⟩ := exists_entry_of_writtenLexemes split
    rw [map_token_writtenLexemes] at refused
    rw [Nat.zero_add]
    exact ⟨before, gap, token, after, refusal, rfl, refused, rfl⟩
  · intro first
    obtain ⟨before, gap, token, after, refusal, rfl, refused, rfl⟩ := first
    rw [writtenLexemes_append, Nat.zero_add]
    refine ⟨_, _, _, refusal, rfl, ?_, rfl⟩
    rwa [map_token_writtenLexemes]

theorem evaluate_written_explode :
    let read := (evaluate .standard " 2d6X6 \tKn3,6\n").run (Scripted.ofValues [6, 3, 4])
    read.value = .ok ⟨Die.d6, [.numbered 6, .numbered 3]⟩ ∧ read.draws = 3 := by
  let entries := [([' '], Operation.dice 2 6), ([], .explode [6]), ([' ', '\t'], .keepValues [3, 6])]
  obtain ⟨_, asked, values, _⟩ := @evaluate_written _ _ entries ['\n'] (by decide) (by decide)
    (by decide) (by decide) .standard (Scripted.ofValues [6, 3, 4])
  exact ⟨(values _).2 rfl, congrArg List.length asked⟩

end

end Tabletop.Notation
