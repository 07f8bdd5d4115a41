import Mathlib.Algebra.GroupWithZero.Nat
import Tabletop.Proofs.Explosion
import Tabletop.Proofs.Notation.Ending

/-! What an operation does, and how the operations of a text go one after the other.

An operation that is carried out draws as often as it throws dice or adds faces. One
that is refused draws nothing, unless it is an explosion that has spent its limit. So an
evaluation is known by the turns its operations take and by what ends them. -/

set_option autoImplicit false

namespace Tabletop.Notation

def Operation.IsExplosion {ν : Type} : Operation ν → Prop
  | .explode _ => True
  | .dice _ _ | .keep _ _ | .drop _ _ | .keepValues _ | .dropValues _ => False

instance {ν : Type} : DecidablePred (@Operation.IsExplosion ν)
  | .explode _ => inferInstanceAs (Decidable True)
  | .dice _ _ | .keep _ _ | .drop _ _ | .keepValues _ | .dropValues _ =>
    inferInstanceAs (Decidable False)

def Operation.IsListed {ν : Type} : Operation ν → Prop
  | .keepValues _ | .dropValues _ | .explode _ => True
  | .dice _ _ | .keep _ _ | .drop _ _ => False

def Operation.IsRanked {ν : Type} : Operation ν → Prop
  | .keep _ _ | .drop _ _ => True
  | .dice _ _ | .keepValues _ | .dropValues _ | .explode _ => False

/-- The refusals that an operation can meet on what was rolled before. -/
inductive Meets (limits : Limits) (token : Token) : Option Roll → Refusal → Prop where
  | nothingRolled (other : ¬token.IsDice) : Meets limits token none .nothingRolled
  | overLimit {before : Option Roll} (dice : token.IsDice) : Meets limits token before .overLimit
  | noDice {before : Option Roll} (dice : token.IsDice) :
      Meets limits token before (.faulty .zeroValue)
  | noDie {before : Option Roll} {distinct : Nat} (dice : token.IsDice) :
      Meets limits token before (.faulty (.tooFewValues distinct))
  | tooFew {roll : Roll} {count : Nat} (ranked : token.IsRanked) :
      Meets limits token (some roll) (.faulty (.countOutOfRange count roll.size))
  | covering {roll : Roll} (listed : token.IsListed) : Meets limits token (some roll) .covering
  | pending {roll : Roll} (explosion : token.IsExplosion) :
      Meets limits token (some roll) (.faulty (.explosionPending limits.explosion))

def Refusal.draws : Refusal → Nat
  | .faulty (.explosionPending limit) => limit
  | .nothingRolled | .overLimit | .covering | .faulty _ => 0

/-- An operation that was carried out, what was rolled before and what it made of that. -/
structure Turn where
  token : Token
  before : Option Roll
  after : Roll

def Token.thrown : Token → Nat
  | .dice count _ => count
  | .keep _ _ | .drop _ _ | .keepValues _ | .dropValues _ | .explode _ => 0

def Turn.added (turn : Turn) : Nat :=
  match turn.token with
  | .explode _ => turn.after.size - (turn.before.map Roll.size).getD 0
  | .dice _ _ | .keep _ _ | .drop _ _ | .keepValues _ | .dropValues _ => 0

def Turn.draws (turn : Turn) : Nat := turn.token.thrown + turn.added

def Limits.allowance (limits : Limits) : Token → Nat
  | .dice _ _ => limits.dice
  | .explode _ => limits.explosion
  | .keep _ _ | .drop _ _ | .keepValues _ | .dropValues _ => 0

section
variable {σ : Type} [Source σ] {limits : Limits}

/-- What an operation can come to: a roll at its price, or a refusal that it can meet. -/
def Judged (limits : Limits) (token : Token) (before : Option Roll)
    (run : Rolling.Run σ (Except Refusal Roll)) : Prop :=
  match run.value with
  | .ok after => run.draws = (Turn.mk token before after).draws ∧ run.draws ≤ limits.allowance token
  | .error refusal =>
    run.draws = refusal.draws ∧ run.draws ≤ limits.allowance token ∧ Meets limits token before refusal

theorem judged_dice (count faces : Nat) (before : Option Roll) (source : σ) :
    Judged limits (.dice count faces) before ((step limits (.dice count faces) before).run source) := by
  have asked := numbered_cases count faces
  simp only [step]
  generalize Die.numbered faces >>= Dice.ofCount count = made at asked ⊢
  by_cases many : limits.dice < count ∨ limits.faces < faces
  · rw [if_pos many]
    exact ⟨rfl, Nat.zero_le _, .overLimit trivial⟩
  · rw [if_neg many]
    rcases asked with ⟨dice, rfl, counted⟩ | rfl | ⟨distinct, rfl⟩
    · have thrown : (dice.roll.run source).draws = count := by
        simp [Rolling.Run.draws, Dice.roll, Rolling.run_bind, Die.run_rollMany, counted]
      have within : count ≤ limits.dice := by omega
      simp only [Judged, Rolling.run_map]
      exact ⟨thrown, thrown.trans_le within⟩
    · exact ⟨rfl, Nat.zero_le _, .noDice trivial⟩
    · exact ⟨rfl, Nat.zero_le _, .noDie trivial⟩

theorem judged_select (token : Token) {roll : Roll} (ranked : token.IsRanked) (count : Nat)
    (choose : List Face → List Face) (source : σ) :
    Judged limits token (some roll)
      ((pure ((roll.select count choose).mapError .faulty) : Rolling _).run source) := by
  unfold Roll.select
  by_cases enough : count ≤ roll.size
  · rw [if_pos enough]
    refine ⟨?_, Nat.zero_le _⟩
    cases token <;> first | rfl | cases ranked
  · rw [if_neg enough]
    exact ⟨rfl, Nat.zero_le _, .tooFew ranked⟩

theorem judged_narrowed (token : Token) {roll : Roll} (listed : token.IsListed)
    (values : List Nat) (select : ValueSet → Roll)
    (free : ∀ after, (Turn.mk token (some roll) after).draws = 0) (source : σ) :
    Judged limits token (some roll)
      ((pure ((narrowed roll values).map select) : Rolling _).run source) := by
  simp only [narrowed]
  split
  · exact ⟨rfl, Nat.zero_le _, .covering listed⟩
  · exact ⟨(free _).symm, Nat.zero_le _⟩

theorem judged_explode (values : List Nat) (roll : Roll) (source : σ) :
    Judged limits (.explode values) (some roll)
      ((step limits (.explode values) (some roll)).run source) := by
  simp only [step, narrowed]
  by_cases covering : roll.die.distinct ≤ (ValueSet.ofList (values.map Int.ofNat)).size
  · rw [if_pos covering]
    exact ⟨rfl, Nat.zero_le _, .covering trivial⟩
  · rw [if_neg covering]
    simp only [Judged, Rolling.run_map]
    rcases roll.explode_cases (.ofList (values.map Int.ofNat)) limits.explosion source with
      ⟨count, within, stops⟩ | stops
    · have added : (Turn.mk (.explode values) (some roll)
          { roll with faces := roll.faces ++ roll.die.shown source count }).draws = count := by
        simp [Turn.draws, Token.thrown, Turn.added, Roll.size]
      rw [stops.value]
      exact ⟨stops.draws.trans added.symm, stops.draws.trans_le within⟩
    · rw [stops.value]
      exact ⟨stops.draws, stops.draws.le, .pending trivial⟩

theorem judged (token : Token) (before : Option Roll) (source : σ) :
    Judged limits token before ((step limits token before).run source) := by
  cases before with
  | none =>
    cases token with
    | dice count faces => exact judged_dice count faces none source
    | keep | drop | keepValues | dropValues | explode =>
      exact ⟨rfl, Nat.zero_le _, .nothingRolled id⟩
  | some roll =>
    cases token with
    | dice count faces => exact judged_dice count faces (some roll) source
    | keep side count => cases side <;> exact judged_select (.keep _ count) trivial count _ source
    | drop side count => cases side <;> exact judged_select (.drop _ count) trivial count _ source
    | keepValues values =>
      exact judged_narrowed (.keepValues values) trivial values _ (fun _ => rfl) source
    | dropValues values =>
      exact judged_narrowed (.dropValues values) trivial values _ (fun _ => rfl) source
    | explode values => exact judged_explode values roll source

section
variable {token : Token} {before : Option Roll} {source : σ}

theorem draws_of_carried {after : Roll}
    (carried : ((step limits token before).run source).value = .ok after) :
    ((step limits token before).run source).draws = (Turn.mk token before after).draws ∧
      (Turn.mk token before after).draws ≤ limits.allowance token := by
  have found := @judged _ _ limits token before source
  rw [Judged, carried] at found
  exact ⟨found.1, found.1 ▸ found.2⟩

theorem draws_of_refused {refusal : Refusal}
    (refused : ((step limits token before).run source).value = .error refusal) :
    ((step limits token before).run source).draws = refusal.draws ∧
      refusal.draws ≤ limits.allowance token ∧ Meets limits token before refusal := by
  have found := @judged _ _ limits token before source
  rw [Judged, refused] at found
  exact ⟨found.1, found.1 ▸ found.2.1, found.2.2⟩

end

inductive Turns (limits : Limits) : Option Roll → σ → List Turn → Option Roll → σ → Prop where
  | nil {before : Option Roll} {source : σ} : Turns limits before source [] before source
  | cons {token : Token} {before last : Option Roll} {source left : σ} {after : Roll}
      {rest : List Turn}
      (carried : ((step limits token before).run source).value = .ok after)
      (behind : Turns limits (some after) ((step limits token before).run source).source rest last
        left) :
      Turns limits before source (⟨token, before, after⟩ :: rest) last left

theorem Turns.eq_nil_of_none {before last : Option Roll} {source left : σ} {turns : List Turn}
    (turned : Turns limits before source turns last left) (nothing : last = none) :
    turns = [] ∧ before = none := by
  induction turned with
  | nil => exact ⟨rfl, nothing⟩
  | cons _ _ ih => cases (ih nothing).2

def drawn (turns : List Turn) : Nat := (turns.map Turn.draws).sum

@[simp] theorem drawn_cons (turn : Turn) (turns : List Turn) :
    drawn (turn :: turns) = turn.draws + drawn turns := by
  simp [drawn]

/-- A lexeme is refused when those before it have taken their turns. -/
inductive RefusedAt (limits : Limits) (lexemes : List Lexeme) (before : Option Roll) (source : σ)
    (turns : List Turn) (lexeme : Lexeme) (refusal : Refusal) : Prop where
  | intro {earlier later : List Lexeme} {last : Option Roll} {left : σ}
      (split : lexemes = earlier ++ lexeme :: later)
      (tokens : turns.map Turn.token = earlier.map Lexeme.token)
      (turned : Turns limits before source turns last left)
      (refused : ((step limits lexeme.token last).run left).value = .error refusal)

namespace RefusedAt

section
variable {lexemes : List Lexeme} {before : Option Roll} {source : σ} {turns : List Turn}
  {lexeme : Lexeme} {refusal : Refusal}

theorem cons {first : Lexeme} {roll : Roll}
    (carried : ((step limits first.token before).run source).value = .ok roll)
    (refused : RefusedAt limits lexemes (some roll)
      ((step limits first.token before).run source).source turns lexeme refusal) :
    RefusedAt limits (first :: lexemes) before source (⟨first.token, before, roll⟩ :: turns) lexeme
      refusal := by
  obtain ⟨rfl, tokens, turned, refused⟩ := refused
  exact ⟨(List.cons_append ..).symm, congrArg _ tokens, .cons carried turned, refused⟩

theorem mem (refused : RefusedAt limits lexemes before source turns lexeme refusal) :
    lexeme ∈ lexemes := by
  obtain ⟨rfl, _, _, _⟩ := refused
  exact List.mem_append_right _ List.mem_cons_self

theorem meets (refused : RefusedAt limits lexemes before source turns lexeme refusal) :
    ∃ last, Meets limits lexeme.token last refusal := by
  obtain ⟨_, _, _, refused⟩ := refused
  exact ⟨_, (draws_of_refused refused).2.2⟩

theorem first (refused : RefusedAt limits lexemes before source turns lexeme .nothingRolled) :
    turns = [] ∧ lexemes.head? = some lexeme := by
  obtain ⟨rfl, tokens, turned, refused⟩ := refused
  cases (draws_of_refused refused).2.2
  obtain ⟨rfl, _⟩ := turned.eq_nil_of_none rfl
  rw [List.map_nil, eq_comm, List.map_eq_nil_iff] at tokens
  subst tokens
  exact ⟨rfl, rfl⟩

end

end RefusedAt

/-- What performing lexemes comes to: all of them take their turns, or those before the first that
is refused. -/
inductive Performed (limits : Limits) (lexemes : List Lexeme) (before : Option Roll) (source : σ)
    (run : Rolling.Run σ (Except NotationFault (Option Roll))) : Prop where
  | carried {turns : List Turn} {last : Option Roll} (value : run.value = .ok last)
      (tokens : turns.map Turn.token = lexemes.map Lexeme.token)
      (turned : Turns limits before source turns last run.source) (draws : run.draws = drawn turns)
  | refused {turns : List Turn} {lexeme : Lexeme} {refusal : Refusal}
      (value : run.value = .error (.located lexeme.position (refusal.report lexeme.text)))
      (refused : RefusedAt limits lexemes before source turns lexeme refusal)
      (draws : run.draws = drawn turns + refusal.draws)

theorem performed (lexemes : List Lexeme) (before : Option Roll) (source : σ) :
    Performed limits lexemes before source ((performAll limits lexemes before).run source) := by
  -- What a lexeme leaves, the roll and the source, is what the rest goes on with.
  induction lexemes generalizing before source with
  | nil => exact .carried rfl rfl .nil rfl
  | cons lexeme rest ih =>
    cases first : ((step limits lexeme.token before).run source).value with
    | error refusal =>
      rw [run_performAll_error first]
      refine .refused rfl ⟨(List.nil_append _).symm, rfl, .nil, first⟩ ?_
      exact (draws_of_refused first).1.trans (Nat.zero_add _).symm
    | ok roll =>
      rw [run_performAll_ok first]
      have cost := (draws_of_carried first).1
      cases ih (some roll) ((step limits lexeme.token before).run source).source with
      | carried value tokens turned draws =>
        refine .carried value (congrArg _ tokens) (.cons first turned) ?_
        rw [drawn_cons, ← cost, ← draws]
        exact List.length_append
      | refused value refused draws =>
        refine .refused value (refused.cons first) ?_
        rw [drawn_cons, ← cost, Nat.add_assoc, ← draws]
        exact List.length_append

inductive Outcome (limits : Limits) (text : List Char) (source : σ)
    (run : Rolling.Run σ (Except NotationFault Roll)) : Prop where
  | blank (blank : Blank text) (value : run.value = .error (.located 0 .blank))
      (draws : run.draws = 0)
  | stopped {position : Nat} {numeral : NumeralFault}
      (stopped : (Scan.ofText text).stopped = some (position, numeral))
      (value : run.value = .error (.located position (.number numeral))) (draws : run.draws = 0)
  | refused {turns : List Turn} {lexeme : Lexeme} {refusal : Refusal}
      (refused : RefusedAt limits (Scan.ofText text).lexemes none source turns lexeme refusal)
      (value : run.value = .error (.located lexeme.position (refusal.report lexeme.text)))
      (draws : run.draws = drawn turns + refusal.draws)
  | unreadable {turns : List Turn} {last : Option Roll} {position : Nat} {remainder : String}
      (scanned : (Scan.ofText text).stopped = none)
      (remains : (Scan.ofText text).remainder? = some (position, remainder))
      (tokens : turns.map Turn.token = (Scan.ofText text).lexemes.map Lexeme.token)
      (turned : Turns limits none source turns last run.source)
      (value : run.value = .error (.located position (.unreadable remainder)))
      (draws : run.draws = drawn turns)
  | evaluated {turns : List Turn} {roll : Roll}
      (tokens : turns.map Turn.token = (Scan.ofText text).lexemes.map Lexeme.token)
      (turned : Turns limits none source turns (some roll) run.source)
      (value : run.value = .ok roll) (draws : run.draws = drawn turns)

theorem outcome (limits : Limits) (input : String) (source : σ) :
    Outcome limits input.toList source ((evaluate limits input).run source) := by
  have operations := @performed _ _ limits (Scan.ofText input.toList).lexemes none source
  cases evaluate_ending limits input source with
  | blank blank same => exact .blank blank same.value same.draws
  | stopped stopped same => exact .stopped stopped same.value same.draws
  | failed _ _ failed same =>
    cases operations with
    | carried value => cases value.symm.trans failed
    | refused value refused draws =>
      cases value.symm.trans failed
      exact .refused refused same.value (same.draws.trans draws)
  | unreadable _ scanned carried remains same =>
    cases operations with
    | refused value => cases value.symm.trans carried
    | carried value tokens turned draws =>
      rw [← same.source] at turned
      exact .unreadable scanned remains tokens turned same.value (same.draws.trans draws)
  | evaluated _ _ carried _ same =>
    cases operations with
    | refused value => cases value.symm.trans carried
    | carried value tokens turned draws =>
      cases value.symm.trans carried
      rw [← same.source] at turned
      exact .evaluated tokens turned same.value (same.draws.trans draws)

end

end Tabletop.Notation
