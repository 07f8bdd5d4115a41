import Tabletop.Proofs.Calls
import Tabletop.Proofs.Draws

/-! Scripts over runs of calls.

Each call that asks for a choice takes the next entry of the script, whatever ranges were asked
for before. So the rolls of a die take the entries one by one. -/

set_option autoImplicit false

namespace Tabletop

theorem Die.after_eq_left {σ : Type} [Source σ] (die : Die) (source : σ) (count : Nat) :
    die.after source count = Source.left source (List.replicate count die.faces.length) := by
  induction count generalizing source with
  | zero => rfl
  | succ count ih =>
    have first : die.after source 1 = (Source.index die.faces.length source).2 := by
      simp [after, roll, Rolling.run_draw]
    rw [after_succ, ih, first]
    rfl

namespace Scripted

variable {script : List Nat} {given below : Nat}

theorem index_idle {source : Scripted} (idle : below = 0 ∨ source.script = []) :
    Source.index below source = (0, source) := by
  change index below source = _
  unfold index
  split
  · rfl
  · next asked => rw [idle.resolve_left asked, List.getElem?_nil]

theorem index_entry (some_entry : 0 < script.length) (asked : 0 < below) :
    Source.index below (⟨script, given⟩ : Scripted) =
      (script.get ⟨given % script.length, Nat.mod_lt _ some_entry⟩ % below,
        ⟨script, given + 1⟩) := by
  change index below ⟨script, given⟩ = _
  unfold index
  rw [if_neg (Nat.ne_of_gt asked), List.getElem?_eq_getElem (Nat.mod_lt _ some_entry)]
  rfl

theorem left_nil (bounds : List Nat) : Source.left (ofList []) bounds = ofList [] := by
  induction bounds with
  | nil => rfl
  | cons below rest ih =>
    rw [Source.left, List.foldl_cons, index_idle (.inr rfl)]
    exact ih

theorem left_of_script (some_entry : 0 < script.length) (bounds : List Nat) :
    Source.left (⟨script, given⟩ : Scripted) bounds =
      ⟨script, given + bounds.countP (0 < ·)⟩ := by
  induction bounds generalizing given with
  | nil => rfl
  | cons below rest ih =>
    rw [Source.left, List.foldl_cons]
    rcases Nat.eq_zero_or_pos below with none | asked
    · rw [index_idle (.inl none), List.countP_cons_of_neg (by simp [none])]
      exact ih
    · rw [index_entry some_entry asked, List.countP_cons_of_pos (by simp [asked])]
      refine Eq.trans ih ?_
      rw [Nat.add_right_comm, Nat.add_assoc]

/-- The script answers a call that follows `taken` others that took an entry. -/
structure Answers (script : List Nat) (taken : Nat) (call : Call) : Prop where
  idle : call.below = 0 ∨ script = [] → call.answer = 0
  entry : 0 < call.below → ∀ some_entry : 0 < script.length, call.answer =
    script.get ⟨taken % script.length, Nat.mod_lt _ some_entry⟩ % call.below

theorem answers_calls {bounds : List Nat} {number : Nat} {call : Call}
    (made : (Source.calls (ofList script) bounds)[number]? = some call) :
    Answers script ((bounds.take number).countP (0 < ·)) call := by
  rw [Source.getElem?_calls] at made
  obtain ⟨below, _, rfl⟩ := Option.map_eq_some_iff.1 made
  rcases Nat.eq_zero_or_pos script.length with empty | some_entry
  · obtain rfl := List.eq_nil_of_length_eq_zero empty
    refine ⟨fun _ => ?_, fun _ some_entry => absurd some_entry (Nat.lt_irrefl 0)⟩
    rw [left_nil, index_idle (.inr rfl)]
  · simp only [ofList, left_of_script some_entry, Nat.zero_add]
    refine ⟨fun idle => ?_, fun asked _ => ?_⟩
    · rcases idle with none | rfl
      · rw [index_idle (.inl none)]
      · exact absurd some_entry (Nat.lt_irrefl 0)
    · rw [index_entry some_entry asked]

theorem after_of_script (die : Die) (some_entry : 0 < script.length) (count : Nat) :
    die.after (⟨script, given⟩ : Scripted) count = ⟨script, given + count⟩ := by
  have asked : (List.replicate count die.faces.length).countP (0 < ·) = count := by
    simp [List.countP_replicate, die.faces_pos]
  rw [die.after_eq_left, left_of_script some_entry, asked]

theorem getElem?_face (die : Die) (some_entry : 0 < script.length) (index : Nat) :
    die.faces[script.get ⟨index % script.length, Nat.mod_lt _ some_entry⟩ % die.faces.length]? =
      some (die.face (ofList script) index) := by
  have left : die.after (ofList script) index = ⟨script, index⟩ := by
    rw [ofList, after_of_script die some_entry, Nat.zero_add]
  have stands := die.getElem?_roll (die.after (ofList script) index)
  rw [left, index_entry some_entry die.faces_pos, Nat.mod_mod] at stands
  rw [stands, Die.face, left]

end Scripted

end Tabletop
