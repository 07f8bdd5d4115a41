import Tabletop.Proofs.Notation.Displaced
import Tabletop.Proofs.Notation.Places
import Tabletop.Proofs.Notation.Sequel

/-! Evaluating texts with the same chunks.

A blank parts what is in front of it from what is behind it, so each chunk is scanned
on its own. Two texts with the same chunks hold the same tokens at the same offsets of
their chunks, and the same characters stay behind up to the blanks between them. So
their operations are the same, and their faults lie beside each other. -/

set_option autoImplicit false

namespace Tabletop.Notation

structure Scan.Displaced (beside : Nat → Nat → Prop) (first second : Scan) : Prop where
  lexemes : List.Forall₂ (Lexeme.Displaced beside) first.lexemes second.lexemes
  stopped : Option.Rel (fun stop other => beside stop.1 other.1 ∧ stop.2 = other.2)
    first.stopped second.stopped
  loose : Option.Rel (fun entry other => beside entry.1 other.1)
    (first.residue.find? fun entry => !isBlank entry.2)
    (second.residue.find? fun entry => !isBlank entry.2)
  chunks : chunks isBlank (first.residue.map Prod.snd) = chunks isBlank (second.residue.map Prod.snd)

namespace Scan.Displaced

variable {beside : Nat → Nat → Prop} {first second : Scan}

theorem imp {other : Nat → Nat → Prop} (displaced : first.Displaced beside second)
    (imp : ∀ position place, beside position place → other position place) :
    first.Displaced other second where
  lexemes := displaced.lexemes.imp fun _ _ lexeme =>
    ⟨lexeme.token, lexeme.text, imp _ _ lexeme.position⟩
  stopped := rel_imp displaced.stopped fun _ _ stop => ⟨imp _ _ stop.1, stop.2⟩
  loose := rel_imp displaced.loose fun _ _ => imp _ _
  chunks := displaced.chunks

/-- Scans one after the other find the same, if a blank parts what the second ones leave behind. -/
theorem followedBy {left right : Scan} (displaced : first.Displaced beside second)
    (behind : left.Displaced beside right) (parted : Parted isBlank (left.residue.map Prod.snd))
    (parted_too : Parted isBlank (right.residue.map Prod.snd)) :
    (first.followedBy left).Displaced beside (second.followedBy right) := by
  have stops := displaced.stopped
  cases stopped : first.stopped with
  | some stop =>
    rw [stopped] at stops
    obtain ⟨other, found, _⟩ := exists_of_rel_some stops
    rwa [followedBy_of_stopped stopped, followedBy_of_stopped found]
  | none =>
    rw [stopped] at stops
    rw [followedBy_of_scanned stopped, followedBy_of_scanned (eq_none_of_rel stops)]
    refine ⟨List.rel_append displaced.lexemes behind.lexemes, behind.stopped, ?_, ?_⟩
    · simp only [List.find?_append]
      exact rel_or displaced.loose behind.loose
    · simp only [List.map_append, chunks_append parted, chunks_append parted_too,
        displaced.chunks, behind.chunks]

theorem behind_gaps {gap other : List Char} (blank : Blank gap) (blank_too : Blank other)
    (position place : Nat) (displaced : first.Displaced beside second) :
    ((ofGap position gap).followedBy first).Displaced beside
      ((ofGap place other).followedBy second) := by
  have skipped : ∀ {start : Nat} {gap : List Char}, Blank gap →
      (ofGap start gap).residue.find? (fun entry => !isBlank entry.2) = none := by
    intro start gap blank
    simpa using isBlank_of_mem_ofGap blank
  rw [followedBy_of_scanned rfl, followedBy_of_scanned rfl]
  refine ⟨displaced.lexemes, displaced.stopped, ?_, ?_⟩
  · simp only [List.find?_append, skipped blank, skipped blank_too, Option.none_or]
    exact displaced.loose
  · simp only [List.map_append, residue_ofGap, chunks_gap_append blank, chunks_gap_append blank_too]
    exact displaced.chunks

theorem remainder (displaced : first.Displaced beside second) :
    Option.Rel (fun found other => beside found.1 other.1 ∧ SameSqueezed found.2 other.2)
      first.remainder? second.remainder? := by
  have same : SameSqueezed (String.ofList (trim (first.residue.map Prod.snd)))
      (String.ofList (trim (second.residue.map Prod.snd))) := by
    rw [SameSqueezed, String.toList_ofList, String.toList_ofList, squeezed_trim, squeezed_trim,
      displaced.chunks]
  have loose := displaced.loose
  unfold remainder?
  cases found : first.residue.find? fun entry => !isBlank entry.2 with
  | none =>
    rw [found] at loose
    rw [eq_none_of_rel loose]
    exact .none
  | some entry =>
    rw [found] at loose
    obtain ⟨other, found, both⟩ := exists_of_rel_some loose
    rw [found]
    exact .some ⟨both, same⟩

theorem of_moved {scan : Scan} (distance other : Nat)
    (lexemes : ∀ lexeme ∈ scan.lexemes,
      beside (distance + lexeme.position) (other + lexeme.position))
    (stopped : ∀ stop ∈ scan.stopped, beside (distance + stop.1) (other + stop.1))
    (residue : ∀ entry ∈ scan.residue, beside (distance + entry.1) (other + entry.1)) :
    (scan.moved distance).Displaced beside (scan.moved other) where
  lexemes := by
    simp only [moved, List.forall₂_map_left_iff, List.forall₂_map_right_iff, List.forall₂_same]
    exact fun lexeme member => ⟨rfl, rfl, lexemes lexeme member⟩
  stopped := by
    unfold moved
    cases found : scan.stopped with
    | none => exact .none
    | some stop => exact .some ⟨stopped stop found, rfl⟩
  loose := by
    simp only [moved, List.find?_map, Function.comp_def]
    cases found : scan.residue.find? fun entry => !isBlank entry.2 with
    | none => exact .none
    | some entry => exact .some (residue entry (List.mem_of_find?_eq_some found))
  chunks := by simp [moved, Function.comp_def]

end Scan.Displaced

def place? (start : Nat) (text : List Char) (index offset : Nat) : Option Nat := do
  let chunk ← (chunks (fun placed => isBlank placed.1) (text.zipIdx start))[index]?
  let placed ← chunk[offset]?
  return placed.2

def BesideFrom (start : Nat) (first : List Char) (other : Nat) (second : List Char)
    (position place : Nat) : Prop :=
  ∃ index offset, place? start first index offset = some position ∧
    place? other second index offset = some place

/-- The positions are the same offset into the same chunk. -/
def Beside (first second : List Char) : Nat → Nat → Prop :=
  BesideFrom 0 first 0 second

section
variable {start : Nat} {gap chunk rest : List Char}

theorem chunks_placed (start : Nat) (opening : Opening isBlank gap chunk rest) :
    chunks (fun placed => isBlank placed.1) ((gap ++ (chunk ++ rest)).zipIdx start) =
      chunk.zipIdx (start + gap.length) ::
        chunks (fun placed => isBlank placed.1) (rest.zipIdx (start + gap.length + chunk.length)) := by
  rw [List.zipIdx_append, List.zipIdx_append, (opening.zipIdx _ _ _).chunks_eq]

theorem place?_zero (start : Nat) (opening : Opening isBlank gap chunk rest) {offset : Nat}
    (inside : offset < chunk.length) :
    place? start (gap ++ (chunk ++ rest)) 0 offset = some (start + gap.length + offset) := by
  rw [place?, chunks_placed start opening]
  simp [inside]

theorem place?_succ (start : Nat) (opening : Opening isBlank gap chunk rest) (index offset : Nat) :
    place? start (gap ++ (chunk ++ rest)) (index + 1) offset =
      place? (start + gap.length + chunk.length) rest index offset := by
  rw [place?, chunks_placed start opening]
  rfl

variable {other : Nat} {space tail : List Char} (opening : Opening isBlank gap chunk rest)
  (another : Opening isBlank space chunk tail)
include opening another

theorem besideFrom_chunk {offset : Nat} (inside : offset < chunk.length) :
    BesideFrom start (gap ++ (chunk ++ rest)) other (space ++ (chunk ++ tail))
      (start + gap.length + offset) (other + space.length + offset) :=
  ⟨0, offset, place?_zero start opening inside, place?_zero other another inside⟩

theorem besideFrom_rest {position place : Nat}
    (beside : BesideFrom (start + gap.length + chunk.length) rest
      (other + space.length + chunk.length) tail position place) :
    BesideFrom start (gap ++ (chunk ++ rest)) other (space ++ (chunk ++ tail)) position place := by
  obtain ⟨index, offset, found, found_too⟩ := beside
  rw [← place?_succ start opening] at found
  rw [← place?_succ other another] at found_too
  exact ⟨index + 1, offset, found, found_too⟩

end

namespace Scan

theorem parted_residue {position : Nat} {text : List Char} (parted : Parted isBlank text) :
    Parted isBlank ((scanFrom position 0 text).residue.map Prod.snd) := by
  cases text with
  | nil =>
    intro char shown
    cases shown
  | cons blank rest =>
    have first : isBlank blank = true := parted blank rfl
    have stuck : Spelling.atHead? (blank :: rest) = none :=
      atHead?_eq_none_iff.2 fun _ _ => noMatch_of_blank first
    intro char shown
    simp only [scanFrom, stuck] at shown
    cases shown
    exact first

theorem displaced_chunk (chunk : List Char) (start other : Nat) {beside : Nat → Nat → Prop}
    (inside : ∀ offset < chunk.length, beside (start + offset) (other + offset)) :
    (scanFrom start 0 chunk).Displaced beside (scanFrom other 0 chunk) := by
  rw [scanFrom_eq_moved, scanFrom_eq_moved]
  apply Displaced.of_moved
  · intro lexeme member
    obtain ⟨some_char, stands⟩ := lexeme_stands member
    exact inside _ (stands.lt_length some_char)
  · intro stop found
    exact inside _ (stopped_lt_length found)
  · intro entry member
    exact inside _ (residue_lt_length member)

theorem displaced_of_chunks {first second : List Char}
    (same : chunks isBlank first = chunks isBlank second) (start other : Nat) :
    (scanFrom start 0 first).Displaced (BesideFrom start first other second)
      (scanFrom other 0 second) := by
  -- The induction is on the chunks, since the gaps of the texts have nothing in common.
  induction left : chunks isBlank first generalizing first second start other with
  | nil =>
    have blank := chunks_eq_nil_iff.1 left
    rw [left] at same
    have blank_too := chunks_eq_nil_iff.1 same.symm
    rw [← List.append_nil first, ← List.append_nil second, scanFrom_gap _ blank,
      scanFrom_gap _ blank_too]
    exact Displaced.behind_gaps blank blank_too _ _ ⟨.nil, .none, .none, rfl⟩
  | cons chunk more ih =>
    rw [left] at same
    obtain ⟨gap, rest, rfl, opening, behind⟩ := exists_opening left
    obtain ⟨space, tail, rfl, another, behind_too⟩ := exists_opening same.symm
    rw [scanFrom_gap _ opening.separators, scanFrom_gap _ another.separators,
      scanFrom_parted opening.parted, scanFrom_parted another.parted]
    apply Displaced.behind_gaps opening.separators another.separators
    -- Behind the gaps stands the same chunk, and behind it what a blank parts from it.
    have chunks_alike := displaced_chunk chunk (start + gap.length) (other + space.length)
      fun _ inside => besideFrom_chunk opening another inside
    have rests_alike := ih (behind.trans behind_too.symm) (start + gap.length + chunk.length)
      (other + space.length + chunk.length) behind
    exact chunks_alike.followedBy (rests_alike.imp fun _ _ => besideFrom_rest opening another)
      (parted_residue opening.parted) (parted_residue another.parted)

/-- The scans give rise to the same evaluation: only blanks of the residue differ. -/
structure SameFound (first second : Scan) : Prop where
  lexemes : first.lexemes = second.lexemes
  stopped : first.stopped = second.stopped
  remainder : first.remainder? = second.remainder?

theorem sameFound_behind_gap {gap : List Char} (blank : Blank gap) (position : Nat) (scan : Scan) :
    ((ofGap position gap).followedBy scan).SameFound scan := by
  rw [followedBy_of_scanned rfl]
  exact ⟨rfl, rfl, remainder?_behind_blanks (isBlank_of_mem_ofGap blank)⟩

theorem sameFound_before_gap {gap : List Char} (blank : Blank gap) (position : Nat) (scan : Scan) :
    (scan.followedBy (ofGap position gap)).SameFound scan := by
  cases stopped : scan.stopped with
  | some stop =>
    rw [followedBy_of_stopped stopped]
    exact ⟨rfl, rfl, rfl⟩
  | none =>
    rw [followedBy_of_scanned stopped]
    have unread : (ofGap position gap).stopped = scan.stopped := stopped.symm
    rw [unread]
    exact ⟨List.append_nil _, rfl, remainder?_before_blanks (isBlank_of_mem_ofGap blank)⟩

theorem sameFound_padded {lead text trail : List Char} (leading : Blank lead)
    (trailing : Blank trail) :
    (ofText (lead ++ (text ++ trail))).SameFound ((ofText text).moved lead.length) := by
  rw [ofText, scanFrom_gap 0 leading, scanFrom_parted (parted_of_separators trailing),
    scanFrom_of_blank _ trailing, scanFrom_eq_moved, Nat.zero_add]
  have front := sameFound_behind_gap leading 0
    (((ofText text).moved lead.length).followedBy (ofGap (lead.length + text.length) trail))
  have back := sameFound_before_gap trailing (lead.length + text.length)
    ((ofText text).moved lead.length)
  exact ⟨front.lexemes.trans back.lexemes, front.stopped.trans back.stopped,
    front.remainder.trans back.remainder⟩

end Scan

section
variable {σ : Type}

theorem same_behind {first second : Rolling.Run σ (Except NotationFault Roll)} {distance : Nat}
    (displaced : first.Displaced (fun position place => place = distance + position) (· = ·) second) :
    second.Same (first.behind distance []) := by
  refine ⟨?_, displaced.source.symm, displaced.asked.symm⟩
  unfold Rolling.Run.behind
  cases found : first.value with
  | ok roll =>
    rw [(displaced.values roll).1 found]
    rfl
  | error fault =>
    obtain ⟨other, found_too, moved⟩ := displaced.faults fault found
    rw [found_too]
    cases moved with
    | unreadable near same =>
      subst near same
      rfl
    | same near _ =>
      subst near
      rfl

variable [Source σ] {limits : Limits} {source : σ}

theorem evaluate_of_chunks {first second : String} (visible : ¬Blank first.toList)
    (same : chunks isBlank first.toList = chunks isBlank second.toList) :
    ((evaluate limits first).run source).Displaced (Beside first.toList second.toList) SameSqueezed
      ((evaluate limits second).run source) := by
  have visible_too : ¬Blank second.toList := by
    intro blank
    rw [chunks_gap blank] at same
    exact visible (chunks_eq_nil_iff.1 same)
  have displaced := Scan.displaced_of_chunks same 0 0
  exact run_evaluate_displaced source visible visible_too displaced.lexemes displaced.stopped
    displaced.remainder

theorem evaluate_of_blank {first second : String} (blank : Blank first.toList)
    (blank_too : Blank second.toList) :
    ((evaluate limits first).run source).Same ((evaluate limits second).run source) := by
  rw [run_evaluate_of_blank blank, run_evaluate_of_blank blank_too]
  exact ⟨rfl, rfl, rfl⟩

theorem evaluate_padded {lead text trail : String} (leading : Blank lead.toList)
    (trailing : Blank trail.toList) (visible : ¬Blank text.toList) :
    ((evaluate limits (lead ++ text ++ trail)).run source).Same
      (((evaluate limits text).run source).behind lead.length []) := by
  have whole : ¬Blank (lead ++ text ++ trail).toList := by
    rw [toList_joined]
    exact fun blank => visible (Blank.append_iff.1 (Blank.append_iff.1 blank).2).1
  have padded : (Scan.ofText (lead ++ text ++ trail).toList).SameFound
      ((Scan.ofText text.toList).moved lead.length) := by
    rw [toList_joined, ← String.length_toList]
    exact Scan.sameFound_padded leading trailing
  apply same_behind
  apply run_evaluate_displaced source visible whole
  · rw [padded.lexemes]
    exact List.forall₂_map_right_iff.2 (List.forall₂_same.2 fun _ _ => ⟨rfl, rfl, rfl⟩)
  · rw [padded.stopped]
    exact rel_map _ fun _ => ⟨rfl, rfl⟩
  · rw [padded.remainder, Scan.remainder?_moved]
    exact rel_map _ fun _ => ⟨rfl, rfl⟩

end

/-- Only the chunks of a text matter. Two texts with the same chunks come to the same roll or to the
same fault, at the same offset of the same chunk, with the same draws; of text that belongs to no
token, the runs of blanks may differ. Blanks at the ends of a text do no more than move its faults. -/
theorem evaluate_respaced {σ : Type} [Source σ] (limits : Limits) (source : σ) :
    let run (text : String) := (evaluate limits text).run source
    (∀ first second : String, chunks isBlank first.toList = chunks isBlank second.toList →
      (Blank first.toList →
        (run first).value = .error (.located 0 .blank) ∧ (run first).Same (run second)) ∧
      (¬Blank first.toList →
        (run first).Displaced (Beside first.toList second.toList) SameSqueezed (run second))) ∧
    ∀ lead text trail : String, Blank lead.toList → Blank trail.toList →
      (Blank text.toList → (run (lead ++ text ++ trail)).Same (run text)) ∧
      (¬Blank text.toList →
        (run (lead ++ text ++ trail)).Same ((run text).behind lead.length [])) := by
  intro run
  refine ⟨?_, ?_⟩
  · intro first second same
    refine ⟨?_, fun visible => evaluate_of_chunks visible same⟩
    intro blank
    rw [chunks_gap blank] at same
    exact ⟨congrArg Rolling.Run.value (run_evaluate_of_blank blank),
      evaluate_of_blank blank (chunks_eq_nil_iff.1 same.symm)⟩
  · intro lead text trail leading trailing
    refine ⟨?_, evaluate_padded leading trailing⟩
    intro blank
    have whole : Blank (lead ++ text ++ trail).toList := by simp [leading, blank, trailing]
    exact evaluate_of_blank whole blank

theorem evaluate_respaced_unreadable :
    let run (text : String) := (evaluate .standard text).run (Scripted.ofValues [6, 3, 4])
    (run " 2d6X6 a\t\nb").value = .error (.located 7 (.unreadable "a\t\nb")) ∧
      ∃ place text, (run "2d6X6\ta b").value = .error (.located place (.unreadable text)) ∧
        Beside " 2d6X6 a\t\nb".toList "2d6X6\ta b".toList 7 place ∧ SameSqueezed "a\t\nb" text := by
  obtain ⟨respaced, _⟩ := evaluate_respaced .standard (Scripted.ofValues [6, 3, 4])
  obtain ⟨_, displaced⟩ := respaced " 2d6X6 a\t\nb" "2d6X6\ta b" (by decide)
  have unreadable : ((evaluate .standard " 2d6X6 a\t\nb").run (Scripted.ofValues [6, 3, 4])).value =
      .error (.located 7 (.unreadable "a\t\nb")) := by decide +kernel
  obtain ⟨other, found, alike⟩ := (displaced (by decide)).faults _ unreadable
  refine ⟨unreadable, ?_⟩
  cases alike with
  | unreadable near same => exact ⟨_, _, found, near, same⟩
  | same near _ => exact ⟨_, _, found, near, rfl⟩

end Tabletop.Notation
