import Tabletop.Proofs.Notation.Turns

/-! What an evaluation notes of its progress.

The tokens read come first, then each reroll of each explosion. One record more closes an
evaluation that succeeds, or one whose last explosion spends its limit. No other failure is
noted. -/

set_option autoImplicit false

namespace Tabletop

namespace Roll

def pendingNote (targets : ValueSet) (limit : Nat) : Except Fault Roll → List Record
  | .ok _ => []
  | .error _ => [.explosionPending targets limit]

section
variable {σ : Type} [Source σ]

theorem log_explodeOnto (roll : Roll) (targets : ValueSet) (limit left due : Nat)
    (added : List Face) (source : σ) :
    let run := (roll.explodeOnto targets limit left due added).run source
    run.log =
      (roll.die.shown source run.draws).map .exploded ++ pendingNote targets limit run.value := by
  induction left generalizing due added source with
  | zero => cases due <;> rfl
  | succ left ih =>
    cases due with
    | zero => rfl
    | succ due =>
      rw [run_explodeOnto_succ]
      change _ :: _ = (roll.die.shown source (_ + 1)).map Record.exploded ++ _
      rw [Die.shown_succ, List.map_cons, List.cons_append]
      exact congrArg _ (ih _ _ _)

theorem log_explode (roll : Roll) (targets : ValueSet) (limit : Nat) (source : σ) :
    ((roll.explode targets limit).run source).log =
      (roll.die.shown source ((roll.explode targets limit).run source).draws).map .exploded ++
        pendingNote targets limit ((roll.explode targets limit).run source).value :=
  log_explodeOnto roll targets limit limit (roll.matching targets) [] source

variable {roll : Roll} {targets : ValueSet} {limit : Nat} {source : σ}

theorem log_of_exploded {after : Roll}
    (settled : ((roll.explode targets limit).run source).value = .ok after) :
    ((roll.explode targets limit).run source).log =
      (after.faces.drop roll.size).map .exploded := by
  rcases roll.explode_cases targets limit source with ⟨count, _, stops⟩ | stops
  · cases stops.value.symm.trans settled
    rw [log_explode, stops.value, stops.draws, size, List.drop_left]
    exact List.append_nil _
  · cases stops.value.symm.trans settled

theorem log_of_pending {fault : Fault}
    (pending : ((roll.explode targets limit).run source).value = .error fault) :
    fault = .explosionPending limit ∧ ((roll.explode targets limit).run source).log =
      (roll.die.shown source limit).map .exploded ++ [.explosionPending targets limit] := by
  rcases roll.explode_cases targets limit source with ⟨count, _, stops⟩ | stops
  · cases stops.value.symm.trans pending
  · cases stops.value.symm.trans pending
    refine ⟨rfl, ?_⟩
    rw [log_explode, stops.value, stops.draws]
    rfl

end

end Roll

namespace Notation

def Turn.rerolls (turn : Turn) : List Face :=
  match turn.token with
  | .explode _ => turn.after.faces.drop ((turn.before.map Roll.size).getD 0)
  | .dice _ _ | .keep _ _ | .drop _ _ | .keepValues _ | .dropValues _ => []

section
variable {σ : Type} [Source σ] {limits : Limits} {token : Token} {before last : Option Roll}
  {source left : σ} {turns : List Turn}

/-- What an operation notes, by what it comes to. An explosion that is carried out notes the faces
it appends; one that spends its limit notes the faces it rerolled, and that one is still due. -/
def Noted (limits : Limits) (token : Token) (before : Option Roll) (source : σ)
    (run : Rolling.Run σ (Except Refusal Roll)) : Prop :=
  match run.value with
  | .ok after => run.log = (Turn.mk token before after).rerolls.map .exploded
  | .error (.faulty (.explosionPending limit)) =>
    limit = limits.explosion ∧ ∃ values roll, token = .explode values ∧ before = some roll ∧
      run.log = (roll.die.shown source limit).map .exploded ++
        [.explosionPending (.ofList (values.map Int.ofNat)) limit]
  | .error _ => run.log = []

theorem log_step_of_other (other : ¬token.IsExplosion) :
    ((step limits token before).run source).log = [] := by
  cases token with
  | explode values => exact absurd trivial other
  | dice count faces =>
    simp only [step]
    split
    · rfl
    · split
      · simp [Rolling.run_map, Dice.run_roll]
      · rfl
  | keep | drop | keepValues | dropValues => cases before <;> rfl

theorem noted_of_other (other : ¬token.IsExplosion) :
    Noted limits token before source ((step limits token before).run source) := by
  have quiet : ((step limits token before).run source).log = [] := log_step_of_other other
  cases came : ((step limits token before).run source).value with
  | ok after =>
    rw [Noted, came, quiet]
    cases token with
    | explode values => exact absurd trivial other
    | dice | keep | drop | keepValues | dropValues => rfl
  | error refusal =>
    rw [Noted, came]
    cases (draws_of_refused came).2.2 with
    | pending explosion => exact absurd explosion other
    | nothingRolled | overLimit | noDice | noDie | tooFew | covering => exact quiet

theorem noted_explode (values : List Nat) (before : Option Roll) (source : σ) :
    Noted limits (.explode values) before source
      ((step limits (.explode values) before).run source) := by
  cases before with
  | none => rfl
  | some roll =>
    let set := ValueSet.ofList (values.map Int.ofNat)
    by_cases covering : roll.die.distinct ≤ set.size
    · simp only [step, narrowed, set, if_pos covering]
      rfl
    · simp only [step, narrowed, set, if_neg covering, Rolling.run_map, Noted]
      cases came : ((roll.explode set limits.explosion).run source).value with
      | ok after => exact Roll.log_of_exploded came
      | error fault =>
        obtain ⟨rfl, log⟩ := Roll.log_of_pending came
        exact ⟨rfl, values, roll, rfl, rfl, log⟩

theorem noted (limits : Limits) (token : Token) (before : Option Roll) (source : σ) :
    Noted limits token before source ((step limits token before).run source) := by
  by_cases explosion : token.IsExplosion
  · cases token with
    | explode values => exact noted_explode values before source
    | dice | keep | drop | keepValues | dropValues => cases explosion
  · exact noted_of_other explosion

theorem log_of_carried {after : Roll}
    (carried : ((step limits token before).run source).value = .ok after) :
    ((step limits token before).run source).log =
      (Turn.mk token before after).rerolls.map .exploded := by
  have found := noted limits token before source
  rwa [Noted, carried] at found

theorem log_performAll_append (turned : Turns limits before source turns last left)
    {earlier : List Lexeme} (tokens : turns.map Turn.token = earlier.map Lexeme.token)
    (later : List Lexeme) :
    ((performAll limits (earlier ++ later) before).run source).log =
      (turns.flatMap Turn.rerolls).map .exploded ++
        ((performAll limits later last).run left).log := by
  -- The records of each turn stand before those of the turns behind it.
  induction turned generalizing earlier with
  | nil =>
    rw [List.map_nil, eq_comm, List.map_eq_nil_iff] at tokens
    subst tokens
    rfl
  | cons carried _ ih =>
    cases earlier with
    | nil => cases tokens
    | cons lexeme rest =>
      rw [List.map_cons, List.map_cons] at tokens
      obtain ⟨rfl, behind⟩ := List.cons.inj tokens
      rw [List.cons_append, run_performAll_ok carried, List.flatMap_cons, List.map_append,
        List.append_assoc, ← log_of_carried carried, ← ih behind]

theorem log_performAll (turned : Turns limits before source turns last left)
    {lexemes : List Lexeme} (tokens : turns.map Turn.token = lexemes.map Lexeme.token) :
    ((performAll limits lexemes before).run source).log =
      (turns.flatMap Turn.rerolls).map .exploded := by
  have whole := log_performAll_append turned tokens []
  rwa [List.append_nil, performAll, Rolling.pure_eq_done, Rolling.run_done, List.append_nil]
    at whole

theorem log_performAll_refused (turned : Turns limits before source turns last left)
    {earlier later : List Lexeme} (tokens : turns.map Turn.token = earlier.map Lexeme.token)
    {lexeme : Lexeme} {refusal : Refusal}
    (refused : ((step limits lexeme.token last).run left).value = .error refusal) :
    ((performAll limits (earlier ++ lexeme :: later) before).run source).log =
      (turns.flatMap Turn.rerolls).map .exploded ++
        ((step limits lexeme.token last).run left).log := by
  rw [log_performAll_append turned tokens, run_performAll_error refused]

def rerollLines (faces : List Face) : List (Level × String) :=
  faces.map fun face => (.trace, s!"exploded into {face.label}")

def pendingLine (targets : ValueSet) (limit : Nat) : Level × String :=
  (.warn, s!"explosion on [{targets.text}] still pending after {limit} rerolls")

def Logged (limits : Limits) (input : String) (lexemes : List Lexeme) (source : σ)
    (run : Rolling.Run σ (Except NotationFault Roll)) (lines : List (Level × String)) : Prop :=
  match run.value with
  | .ok roll =>
    ∃ turns, Turns limits none source turns (some roll) run.source ∧
      turns.map Turn.token = lexemes.map Lexeme.token ∧
      lines = rerollLines (turns.flatMap Turn.rerolls) ++
        [(.debug, s!"{trimmed input} -> [{roll.text}] = {roll.sum}")]
  | .error (.located position cause) =>
    match cause with
    | .blank | .number _ | .notDice _ => lines = []
    | .unreadable _ =>
      ∃ turns last, Turns limits none source turns last run.source ∧
        turns.map Turn.token = lexemes.map Lexeme.token ∧
        lines = rerollLines (turns.flatMap Turn.rerolls)
    | .invalidDice _ | .invalidCount _ | .coveringSet _ =>
      ∃ turns lexeme refusal, RefusedAt limits lexemes none source turns lexeme refusal ∧
        lexeme.position = position ∧ lines = rerollLines (turns.flatMap Turn.rerolls)
    | .badRoll fault =>
      fault = .explosionPending limits.explosion ∧
      ∃ earlier lexeme later turns roll left values, lexemes = earlier ++ lexeme :: later ∧
        lexeme.position = position ∧ lexeme.token = .explode values ∧
        turns.map Turn.token = earlier.map Lexeme.token ∧
        Turns limits none source turns (some roll) left ∧
        lines = rerollLines (turns.flatMap Turn.rerolls ++ roll.die.shown left limits.explosion) ++
          [pendingLine (.ofList (values.map Int.ofNat)) limits.explosion]
    | .located _ _ => False
  | .error _ => False

theorem map_line_exploded (faces : List Face) :
    (faces.map Record.exploded).map Record.line = rerollLines faces := by
  rw [List.map_map]
  rfl

theorem logged_of_refused {input : String} {lexemes : List Lexeme} {lexeme : Lexeme}
    {refusal : Refusal} {run : Rolling.Run σ (Except NotationFault Roll)}
    (value : run.value = .error (.located lexeme.position (refusal.report lexeme.text)))
    (refused : RefusedAt limits lexemes none source turns lexeme refusal) :
    Logged limits input lexemes source run
      (((performAll limits lexemes none).run source).log.map Record.line) := by
  have at_lexeme := refused
  obtain ⟨rfl, tokens, turned, refused⟩ := refused
  rename_i earlier later last left
  have notes := noted limits lexeme.token last left
  rw [Noted, refused] at notes
  rw [log_performAll_refused turned tokens refused, List.map_append, map_line_exploded, Logged,
    value]
  cases (draws_of_refused refused).2.2 with
  | nothingRolled =>
    obtain ⟨rfl, _⟩ := at_lexeme.first
    rw [show ((step limits lexeme.token _).run left).log = [] from notes]
    rfl
  | overLimit | noDice | noDie | tooFew | covering =>
    refine ⟨turns, lexeme, _, at_lexeme, rfl, ?_⟩
    rw [show ((step limits lexeme.token _).run left).log = [] from notes]
    exact List.append_nil _
  | @pending roll explosion =>
    obtain ⟨_, values, _, token, same, log⟩ := notes
    cases same
    refine ⟨rfl, earlier, lexeme, later, turns, roll, left, values, rfl, rfl, token, tokens,
      turned, ?_⟩
    rw [log, List.map_append, map_line_exploded, ← List.append_assoc]
    simp only [rerollLines, List.map_append]
    rfl

def Scan.records (scan : Scan) : List Record :=
  scan.lexemes.map fun lexeme => .lexeme lexeme.token lexeme.position

def conclusion (input : String) : Except NotationFault Roll → List Record
  | .ok roll => [.evaluated input roll]
  | .error _ => []

section
variable {input : String}

theorem log_interpret {scan : Scan} (scanned : scan.stopped = none) :
    ((interpret limits input scan).run source).log =
      ((performAll limits scan.lexemes none).run source).log ++
        conclusion input ((interpret limits input scan).run source).value := by
  simp only [interpret, scanned, Rolling.run_bind]
  cases ((performAll limits scan.lexemes none).run source).value with
  | error fault => rfl
  | ok final =>
    simp only [settle]
    split <;> rfl

variable (visible : ¬Blank input.toList)
include visible

theorem log_evaluate_of_stopped {stop : Nat × NumeralFault}
    (stopped : (Scan.ofText input.toList).stopped = some stop) :
    ((evaluate limits input).run source).log = (Scan.ofText input.toList).records := by
  rw [← all_isBlank_iff] at visible
  simp only [run_evaluate visible, interpret, stopped]
  exact List.append_nil _

theorem log_evaluate_of_scanned (scanned : (Scan.ofText input.toList).stopped = none) :
    ((evaluate limits input).run source).log =
      (Scan.ofText input.toList).records ++
        (((performAll limits (Scan.ofText input.toList).lexemes none).run source).log ++
          conclusion input ((evaluate limits input).run source).value) := by
  rw [← all_isBlank_iff] at visible
  simp only [run_evaluate visible, log_interpret scanned]
  rfl

end

theorem logged_evaluate (limits : Limits) (input : String) (source : σ) :
    let run := (evaluate limits input).run source
    ∃ behind, run.log = (Scan.ofText input.toList).records ++ behind ∧
      Logged limits input (Scan.ofText input.toList).lexemes source run (behind.map Record.line) := by
  intro run
  have operations := @performed _ _ limits (Scan.ofText input.toList).lexemes none source
  cases evaluate_ending limits input source with
  | blank blank same =>
    refine ⟨[], ?_, ?_⟩
    · simp [run, run_evaluate_of_blank blank, Scan.records, Scan.lexemes_of_blank blank]
    · rw [Logged, same.value]
      rfl
  | stopped stopped same =>
    have visible : ¬Blank input.toList := by
      intro blank
      rw [Scan.stopped_of_blank blank] at stopped
      cases stopped
    refine ⟨[], ?_, ?_⟩
    · rw [List.append_nil, log_evaluate_of_stopped visible stopped]
    · rw [Logged, same.value]
      rfl
  | failed visible scanned failed same =>
    refine ⟨_, log_evaluate_of_scanned visible scanned, ?_⟩
    rw [same.value, conclusion, List.append_nil]
    cases operations with
    | carried value => cases value.symm.trans failed
    | refused value refused =>
      cases value.symm.trans failed
      exact logged_of_refused same.value refused
  | unreadable visible scanned carried remains same =>
    refine ⟨_, log_evaluate_of_scanned visible scanned, ?_⟩
    rw [same.value, conclusion, List.append_nil]
    cases operations with
    | refused value => cases value.symm.trans carried
    | carried value tokens turned =>
      rw [log_performAll turned tokens, map_line_exploded, Logged, same.value]
      rw [← same.source] at turned
      exact ⟨_, _, turned, tokens, rfl⟩
  | evaluated visible scanned carried clean same =>
    refine ⟨_, log_evaluate_of_scanned visible scanned, ?_⟩
    cases operations with
    | refused value => cases value.symm.trans carried
    | carried value tokens turned =>
      cases value.symm.trans carried
      rw [log_performAll turned tokens, List.map_append, map_line_exploded, Logged, same.value]
      rw [← same.source] at turned
      exact ⟨_, turned, tokens, rfl⟩

def closingLevels : Except NotationFault Roll → List Level
  | .ok _ => [.debug]
  | .error (.located _ (.badRoll (.explosionPending _))) => [.warn]
  | .error _ => []

theorem level_rerollLines (faces : List Face) :
    (rerollLines faces).map Prod.fst = List.replicate faces.length .trace := by
  rw [rerollLines, List.map_map]
  exact List.map_const' ..

section
variable {input : String} {lexemes : List Lexeme} {lines : List (Level × String)}
  {run : Rolling.Run σ (Except NotationFault Roll)}

theorem Logged.of_ok {roll : Roll} (logged : Logged limits input lexemes source run lines)
    (came : run.value = .ok roll) :
    ∃ turns, Turns limits none source turns (some roll) run.source ∧
      turns.map Turn.token = lexemes.map Lexeme.token ∧
      lines = rerollLines (turns.flatMap Turn.rerolls) ++
        [(.debug, s!"{trimmed input} -> [{roll.text}] = {roll.sum}")] := by
  rwa [Logged, came] at logged

theorem Logged.levels (logged : Logged limits input lexemes source run lines) :
    ∃ count, lines.map Prod.fst = List.replicate count .trace ++ closingLevels run.value := by
  cases came : run.value with
  | ok roll =>
    obtain ⟨turns, _, _, rfl⟩ := logged.of_ok came
    exact ⟨_, by rw [List.map_append, level_rerollLines]; rfl⟩
  | error fault =>
    rw [Logged, came] at logged
    cases fault with
    | located position cause =>
      cases cause with
      | blank | number | notDice => exact ⟨0, by rw [logged]; rfl⟩
      | unreadable =>
        obtain ⟨turns, _, _, _, rfl⟩ := logged
        exact ⟨_, (level_rerollLines _).trans (List.append_nil _).symm⟩
      | invalidDice | invalidCount | coveringSet =>
        obtain ⟨turns, _, _, _, _, rfl⟩ := logged
        exact ⟨_, (level_rerollLines _).trans (List.append_nil _).symm⟩
      | badRoll =>
        obtain ⟨rfl, _, _, _, _, _, _, _, _, _, _, _, _, rfl⟩ := logged
        exact ⟨_, by rw [List.map_append, level_rerollLines]; rfl⟩
      | located => exact logged.elim
    | _ => exact logged.elim

end

/-- What is written of an evaluation: a line for each token read, one for each reroll of each
explosion, in order, and one that tells the roll it came to, or that its last explosion spent the
limit. Nothing else is written, and nothing of a blank text. An explosion rerolls as often as it
draws. -/
theorem evaluate_log (limits : Limits) (input : String) (source : σ) :
    let lexemes := (Scan.ofText input.toList).lexemes
    let run := (evaluate limits input).run source
    (∃ lines, run.log.map Record.line =
        lexemes.map (fun lexeme =>
          (.trace, s!"lexeme {lexeme.token.text} at {lexeme.position}")) ++ lines ∧
      Logged limits input lexemes source run lines) ∧
    (∀ (roll : Roll) targets (before : σ),
      let exploded := (roll.explode targets limits.explosion).run before
      exploded.log = (roll.die.shown before exploded.draws).map .exploded ++
        Roll.pendingNote targets limits.explosion exploded.value) ∧
    (∃ count, run.log.map Record.level = List.replicate count .trace ++ closingLevels run.value) ∧
    (Blank input.toList → run.log = []) := by
  intro lexemes run
  obtain ⟨behind, log, logged⟩ := logged_evaluate limits input source
  refine ⟨⟨_, ?_, logged⟩, ?_, ?_, ?_⟩
  · rw [log, List.map_append, Scan.records, List.map_map]
    rfl
  · intro roll targets before
    exact roll.log_explode targets limits.explosion before
  · obtain ⟨count, levels⟩ := logged.levels
    refine ⟨lexemes.length + count, ?_⟩
    rw [List.map_map] at levels
    rw [← List.replicate_append_replicate, List.append_assoc, ← levels, log, List.map_append,
      Scan.records, List.map_map]
    exact congrArg (· ++ _) (List.map_const' ..)
  · intro blank
    simp only [run, run_evaluate_of_blank blank]

/-- A blank text, an explosion that its limit cuts off, and one that settles in a text with blanks
around it, which are no part of the line that closes the evaluation. -/
theorem evaluate_log_settled :
    let source := Scripted.ofValues [6, 1, 6, 3]
    let pending := (evaluate ⟨1, 10, 10, by decide⟩ " 2d6X06").run source
    let settled := (evaluate .standard " \t2d6X6\n ").run source
    ((evaluate .standard "\t\n").run source).log = [] ∧
    pending.log.map Record.line =
      [(.trace, "lexeme 2d6 at 1"), (.trace, "lexeme X6 at 4"), (.trace, "exploded into 6"),
        (.warn, "explosion on [6] still pending after 1 rerolls")] ∧
    (settled.log.map Record.line).dropLast =
      [(.trace, "lexeme 2d6 at 2"), (.trace, "lexeme X6 at 5"), (.trace, "exploded into 6"),
        (.trace, "exploded into 3")] ∧
    ∃ lines, settled.log.map Record.line =
        [(.trace, "lexeme 2d6 at 2"), (.trace, "lexeme X6 at 5")] ++ lines ∧
      lines.getLast? = some (.debug, "2d6X6 -> [1, 3, 6, 6] = 16") := by
  intro source pending settled
  obtain ⟨_, _, _, silent⟩ := evaluate_log .standard "\t\n" source
  obtain ⟨⟨lines, written, logged⟩, _⟩ := evaluate_log .standard " \t2d6X6\n " source
  let roll : Roll := ⟨.d6, [.numbered 6, .numbered 1, .numbered 6, .numbered 3]⟩
  have rolled : settled.value = .ok roll := by decide +kernel
  have ranked : roll.ranked = [.numbered 1, .numbered 3, .numbered 6, .numbered 6] := by
    simp [roll, Roll.ranked, List.mergeSort, Face.numbered]
  have read : (Scan.ofText " \t2d6X6\n ".toList).lexemes.map (fun lexeme =>
      (Level.trace, s!"lexeme {lexeme.token.text} at {lexeme.position}")) =
      [(.trace, "lexeme 2d6 at 2"), (.trace, "lexeme X6 at 5")] := by decide +kernel
  obtain ⟨turns, _, _, rfl⟩ := logged.of_ok rolled
  rw [read] at written
  refine ⟨silent (by decide), by decide +kernel, by decide +kernel, _, written, ?_⟩
  rw [List.getLast?_concat, Roll.text, ranked]
  decide +kernel

end

end Notation

end Tabletop
