import Tabletop.Proofs.Notation.Fallbacks
import Tabletop.Proofs.Notation.Places
import Tabletop.Proofs.Notation.Turns

/-! What a fault points at.

A fault of an evaluation is placed once, and what it quotes stands in the text at that
place: a lexeme, or the first character that is neither blank nor of a lexeme. -/

set_option autoImplicit false

namespace Tabletop.Notation

/-- The quoted text is that of a lexeme with the property, which stands at the position. -/
def Quotes (text : List Char) (position : Nat) (quoted : String) (property : Token → Prop) : Prop :=
  StandsAt text position quoted.toList ∧
    ∃ lexeme ∈ (Scan.ofText text).lexemes,
      lexeme.position = position ∧ lexeme.text = quoted ∧ property lexeme.token

/-- What a cause says of the place in the text where it is reported. -/
def PointsAt (limits : Limits) (text : List Char) (position : Nat) : NotationFault → Prop
  | .located _ _ => False
  | .blank => Blank text ∧ position = 0
  | .number numeral => (Scan.ofText text).stopped = some (position, numeral)
  | .unreadable remainder =>
    (∃ char, remainder.toList.head? = some char ∧ FirstLoose text position char) ∧
      ∀ char ∈ remainder.toList.getLast?, isBlank char = false
  | .notDice quoted =>
    Quotes text position quoted (¬·.IsDice) ∧
      (Scan.ofText text).lexemes.head?.map Lexeme.position = some position
  | .invalidDice quoted => Quotes text position quoted Operation.IsDice
  | .invalidCount quoted => Quotes text position quoted Operation.IsRanked
  | .coveringSet quoted => Quotes text position quoted Operation.IsListed
  | .badRoll fault =>
    fault = .explosionPending limits.explosion ∧
      ∃ lexeme ∈ (Scan.ofText text).lexemes, lexeme.position = position ∧ lexeme.token.IsExplosion

theorem Scan.quotes {text : List Char} {lexeme : Lexeme} {property : Token → Prop}
    (member : lexeme ∈ (ofText text).lexemes) (holds : property lexeme.token) :
    Quotes text lexeme.position lexeme.text property :=
  ⟨(lexeme_stands member).2, lexeme, member, rfl, rfl, holds⟩

section
variable {σ : Type} [Source σ] {limits : Limits}

theorem pointsAt_report {text : List Char} {source : σ} {turns : List Turn} {lexeme : Lexeme}
    {refusal : Refusal}
    (refused : RefusedAt limits (Scan.ofText text).lexemes none source turns lexeme refusal) :
    PointsAt limits text lexeme.position (refusal.report lexeme.text) := by
  obtain ⟨last, meets⟩ := refused.meets
  cases meets with
  | nothingRolled other =>
    refine ⟨Scan.quotes refused.mem other, ?_⟩
    rw [refused.first.2]
    rfl
  | overLimit dice | noDice dice | noDie dice => exact Scan.quotes refused.mem dice
  | tooFew ranked => exact Scan.quotes refused.mem ranked
  | covering listed => exact Scan.quotes refused.mem listed
  | pending explosion => exact ⟨rfl, lexeme, refused.mem, rfl, explosion⟩

theorem pointsAt_of_error {input : String} {source : σ} {fault : NotationFault}
    (failed : ((evaluate limits input).run source).value = .error fault) :
    ∃ position cause, fault = .located position cause ∧
      PointsAt limits input.toList position cause := by
  cases outcome limits input source with
  | blank blank value =>
    cases value.symm.trans failed
    exact ⟨_, _, rfl, blank, rfl⟩
  | stopped stopped value =>
    cases value.symm.trans failed
    exact ⟨_, _, rfl, stopped⟩
  | refused refused value =>
    cases value.symm.trans failed
    exact ⟨_, _, rfl, pointsAt_report refused⟩
  | unreadable scanned remains _ _ value =>
    cases value.symm.trans failed
    exact ⟨_, _, rfl, Scan.remainder?_firstLoose scanned remains⟩
  | evaluated _ _ value => cases value.symm.trans failed

end

theorem Quotes.lt_length {text : List Char} {position : Nat} {quoted : String}
    {property : Token → Prop} (quotes : Quotes text position quoted property) :
    position < text.length := by
  obtain ⟨stands, lexeme, member, rfl, rfl, _⟩ := quotes
  exact stands.lt_length (Scan.lexeme_stands member).1

theorem PointsAt.lt_length {limits : Limits} {text : List Char} {position : Nat}
    {cause : NotationFault} (points : PointsAt limits text position cause)
    (visible : cause ≠ .blank) : position < text.length := by
  cases cause with
  | located => cases points
  | blank => exact absurd rfl visible
  | number => exact Scan.stopped_lt_length points
  | unreadable =>
    obtain ⟨⟨char, _, loose⟩, _⟩ := points
    exact (List.getElem?_eq_some_iff.1 loose.stands).1
  | notDice => exact points.1.lt_length
  | invalidDice | invalidCount | coveringSet => exact Quotes.lt_length points
  | badRoll =>
    obtain ⟨_, lexeme, member, rfl, _⟩ := points
    obtain ⟨some_char, stands⟩ := Scan.lexeme_stands member
    exact stands.lt_length some_char

/-- A fault of an evaluation is a cause with one position, which points at what it quotes. The text
is blank if and only if it is said to be. -/
theorem evaluate_faults {σ : Type} [Source σ] (limits : Limits) (input : String) (source : σ) :
    let run := (evaluate limits input).run source
    (∀ fault, run.value = .error fault →
      ∃ position cause, fault = .located position cause ∧
        PointsAt limits input.toList position cause ∧
        (cause ≠ .blank → position < input.length)) ∧
    (Blank input.toList ↔ run.value = .error (.located 0 .blank)) ∧
    ∀ fallbacks : Fallbacks, fallbacks.evaluate limits input = evaluate limits input := by
  intro run
  refine ⟨?_, ?_, ?_⟩
  · intro fault failed
    obtain ⟨position, cause, same, points⟩ := pointsAt_of_error failed
    exact ⟨position, cause, same, points, points.lt_length⟩
  · constructor
    · intro blank
      exact congrArg Rolling.Run.value (run_evaluate_of_blank blank)
    · intro failed
      obtain ⟨_, _, same, points⟩ := pointsAt_of_error failed
      cases same
      exact points.1
  · intro fallbacks
    exact fallbacks.evaluate_eq input

end Tabletop.Notation
