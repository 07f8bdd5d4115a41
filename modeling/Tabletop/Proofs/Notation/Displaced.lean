import Mathlib.Data.List.Forall2
import Tabletop.Proofs.Notation.Ending

/-! Evaluations that differ in places only.

Where two texts hold the same tokens, each at a place beside that of the other, the same
operations are performed. A fault of one evaluation is then met in the other one as well,
beside its place. What is beside what, and which quotes count as the same, is left open. -/

set_option autoImplicit false

namespace Tabletop

section
variable {α β : Type} {related : α → β → Prop}

theorem rel_imp {other : α → β → Prop} {first : Option α} {second : Option β}
    (rel : Option.Rel related first second) (imp : ∀ left right, related left right → other left right) :
    Option.Rel other first second := by
  cases rel with
  | none => exact .none
  | some both => exact .some (imp _ _ both)

theorem exists_of_rel_some {left : α} {second : Option β}
    (rel : Option.Rel related (some left) second) : ∃ right, second = some right ∧ related left right := by
  cases rel with
  | some both => exact ⟨_, rfl, both⟩

theorem eq_none_of_rel {second : Option β} (rel : Option.Rel related none second) :
    second = none := by
  cases rel
  rfl

theorem rel_map {change : α → β} (first : Option α) (all : ∀ left, related left (change left)) :
    Option.Rel related first (first.map change) := by
  cases first with
  | none => exact .none
  | some left => exact .some (all left)

theorem rel_or {first left : Option α} {second right : Option β}
    (rel : Option.Rel related first second) (behind : Option.Rel related left right) :
    Option.Rel related (first.or left) (second.or right) := by
  cases rel with
  | none => exact behind
  | some both => exact .some both

end

/-- The faults are the same but for their places, and for what they quote of an unreadable text. -/
inductive NotationFault.Displaced (beside : Nat → Nat → Prop) (quoted : String → String → Prop) :
    NotationFault → NotationFault → Prop where
  | unreadable {position place : Nat} {text other : String} :
      beside position place → quoted text other →
      Displaced beside quoted (.located position (.unreadable text))
        (.located place (.unreadable other))
  | same {position place : Nat} {cause : NotationFault} :
      beside position place → cause ≠ .blank →
      Displaced beside quoted (.located position cause) (.located place cause)

/-- The runs do the same on their source and come to the same, or to displaced faults. -/
structure Rolling.Run.Displaced {σ α : Type} (beside : Nat → Nat → Prop)
    (quoted : String → String → Prop) (first second : Rolling.Run σ (Except NotationFault α)) :
    Prop where
  source : first.source = second.source
  asked : first.asked = second.asked
  values : ∀ value, first.value = .ok value ↔ second.value = .ok value
  faults : ∀ fault, first.value = .error fault →
    ∃ other, second.value = .error other ∧ fault.Displaced beside quoted other

section
variable {σ α : Type} {beside : Nat → Nat → Prop} {quoted : String → String → Prop}

theorem Rolling.Run.Displaced.of_fault {fault other : NotationFault} {source : σ}
    {asked : List Nat} {log records : List Record} (displaced : fault.Displaced beside quoted other) :
    Rolling.Run.Displaced (α := α) beside quoted ⟨.error fault, source, asked, log⟩
      ⟨.error other, source, asked, records⟩ where
  source := rfl
  asked := rfl
  values := by simp
  faults := by
    intro found same
    cases same
    exact ⟨other, rfl, displaced⟩

theorem Rolling.Run.Displaced.of_ok (value : α) (source : σ) (asked : List Nat)
    (log records : List Record) :
    Rolling.Run.Displaced beside quoted ⟨.ok value, source, asked, log⟩
      ⟨.ok value, source, asked, records⟩ where
  source := rfl
  asked := rfl
  values := fun _ => Iff.rfl
  faults := by
    intro found same
    cases same

theorem Rolling.Run.Displaced.of_same {first second left right : Rolling.Run σ (Except NotationFault α)}
    (displaced : left.Displaced beside quoted right) (same : first.Same left)
    (same_too : second.Same right) : first.Displaced beside quoted second where
  source := by rw [same.source, same_too.source, displaced.source]
  asked := by rw [same.asked, same_too.asked, displaced.asked]
  values := by
    rw [same.value, same_too.value]
    exact displaced.values
  faults := by
    rw [same.value, same_too.value]
    exact displaced.faults

end

namespace Notation

structure Lexeme.Displaced (beside : Nat → Nat → Prop) (first second : Lexeme) : Prop where
  token : first.token = second.token
  text : first.text = second.text
  position : beside first.position second.position

theorem report_ne_blank (text : String) (refusal : Refusal) : refusal.report text ≠ .blank := by
  unfold Refusal.report
  split <;> simp

section
variable {σ : Type} [Source σ] {limits : Limits} {beside : Nat → Nat → Prop}
  {quoted : String → String → Prop}

theorem run_performAll_displaced {first second : List Lexeme}
    (lexemes : List.Forall₂ (Lexeme.Displaced beside) first second) (before : Option Roll)
    (source : σ) :
    ((performAll limits first before).run source).Displaced beside quoted
      ((performAll limits second before).run source) := by
  -- The tokens are the same, so both runs leave the same roll and the same source at each step.
  induction lexemes generalizing before source with
  | nil => exact .of_ok _ _ _ _ _
  | @cons lexeme other rest others same _ ih =>
    obtain ⟨token, position, text⟩ := lexeme
    obtain ⟨_, place, _⟩ := other
    obtain ⟨rfl, rfl, near⟩ := same
    cases carried : ((step limits token before).run source).value with
    | error refusal =>
      rw [run_performAll_error carried, run_performAll_error carried]
      exact .of_fault (.same near (report_ne_blank text refusal))
    | ok roll =>
      have behind := ih (some roll) ((step limits token before).run source).source
      rw [run_performAll_ok carried, run_performAll_ok carried]
      exact ⟨behind.source, congrArg (_ ++ ·) behind.asked, behind.values, behind.faults⟩

theorem run_evaluate_displaced {first second : String} (source : σ)
    (visible : ¬Blank first.toList) (visible_too : ¬Blank second.toList)
    (lexemes : List.Forall₂ (Lexeme.Displaced beside) (Scan.ofText first.toList).lexemes
      (Scan.ofText second.toList).lexemes)
    (stopped : Option.Rel (fun stop other => beside stop.1 other.1 ∧ stop.2 = other.2)
      (Scan.ofText first.toList).stopped (Scan.ofText second.toList).stopped)
    (remainder : Option.Rel (fun found other => beside found.1 other.1 ∧ quoted found.2 other.2)
      (Scan.ofText first.toList).remainder? (Scan.ofText second.toList).remainder?) :
    ((evaluate limits first).run source).Displaced beside quoted
      ((evaluate limits second).run source) := by
  have performed : ((performAll limits (Scan.ofText first.toList).lexemes none).run source).Displaced
      beside quoted ((performAll limits (Scan.ofText second.toList).lexemes none).run source) :=
    run_performAll_displaced lexemes none source
  have resumed : (Scan.ofText second.toList).stopped = none →
      ((evaluate limits second).run source).Same ((resume limits second none).run source) :=
    run_evaluate_of_scanned visible_too
  cases evaluate_ending limits first source with
  | blank blank _ => exact absurd blank visible
  | stopped found same =>
    rw [found] at stopped
    obtain ⟨⟨place, _⟩, found, near, rfl⟩ := exists_of_rel_some stopped
    exact .of_same (.of_fault (.same near (by simp))) same (run_evaluate_of_stopped found)
  | failed _ scanned failed same =>
    rw [scanned] at stopped
    obtain ⟨other, failed, displaced⟩ := performed.faults _ failed
    have ended := (resumed (eq_none_of_rel stopped)).trans (run_resume_error rfl failed)
    rw [← performed.source, ← performed.asked] at ended
    exact .of_same (.of_fault displaced) same ended
  | unreadable _ scanned carried remains same =>
    rw [scanned] at stopped
    rw [remains] at remainder
    obtain ⟨⟨place, other⟩, remains, near, quoted⟩ := exists_of_rel_some remainder
    have ended := (resumed (eq_none_of_rel stopped)).trans
      (run_resume_unreadable rfl ((performed.values _).1 carried) remains)
    rw [← performed.source, ← performed.asked] at ended
    exact .of_same (.of_fault (.unreadable near quoted)) same ended
  | evaluated _ scanned carried clean same =>
    rw [scanned] at stopped
    rw [clean] at remainder
    have ended := (resumed (eq_none_of_rel stopped)).trans
      (run_resume_ok rfl ((performed.values _).1 carried) (eq_none_of_rel remainder))
    rw [← performed.source, ← performed.asked] at ended
    exact .of_same (.of_ok _ _ _ _ _) same ended

end

end Notation

end Tabletop
