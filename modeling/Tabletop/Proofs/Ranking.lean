import Mathlib.Data.List.Perm.Basic
import Tabletop.Roll

/-! Rolled faces in order of rank, and the two ends of that order.

Ascending order alone leaves open how faces of equal value follow each other. With each
value in the order its faces fell, one order is left, and a selection by rank cuts it in
two: what is taken is one end of it, and what is left is the other. -/

set_option autoImplicit false

namespace Tabletop

def Ascending (faces : List Face) : Prop :=
  faces.Pairwise fun first second => first.value ≤ second.value

/-- The faces in ascending order of value, those of one value in the order they fell. -/
structure Ranking (fallen order : List Face) : Prop where
  ascending : Ascending order
  stable : ∀ value : Int,
    order.filter (fun face => face.value = value) = fallen.filter fun face => face.value = value

namespace Ranking

variable {fallen order other rest : List Face} {first face : Face}

theorem perm (ranking : Ranking fallen order) : order.Perm fallen := by
  apply List.perm_iff_count.2
  intro face
  -- A face is counted among those of its value.
  have counted := congrArg (List.count face) (ranking.stable face.value)
  rwa [List.count_filter (by simp), List.count_filter (by simp)] at counted

theorem first_le (ranking : Ranking fallen (first :: rest)) (member : face ∈ fallen) :
    first.value ≤ face.value := by
  rcases List.mem_cons.1 (ranking.perm.mem_iff.2 member) with rfl | later
  · exact Int.le_refl _
  · exact (List.pairwise_cons.1 ranking.ascending).1 face later

theorem tail {behind : List Face} (ranking : Ranking (first :: behind) (first :: rest)) :
    Ranking behind rest := by
  refine ⟨(List.pairwise_cons.1 ranking.ascending).2, ?_⟩
  intro value
  have same := ranking.stable value
  simp only [List.filter_cons] at same
  split at same
  · exact (List.cons.inj same).2
  · exact same

theorem eq_of_ascending (ranking : Ranking fallen order) (ascending : Ascending fallen) :
    order = fallen := by
  induction order generalizing fallen with
  | nil => exact ranking.perm.nil_eq
  | cons first rest ih =>
    cases fallen with
    | nil => exact ranking.perm.eq_nil
    | cons second behind =>
      have backward : Ranking (first :: rest) (second :: behind) :=
        ⟨ascending, fun value => (ranking.stable value).symm⟩
      -- Both begin with a face of least value, the first of that value that fell.
      have least : first.value = second.value :=
        Int.le_antisymm (ranking.first_le List.mem_cons_self)
          (backward.first_le List.mem_cons_self)
      have heads := ranking.stable first.value
      rw [List.filter_cons_of_pos (by simp), List.filter_cons_of_pos (by simp [least])] at heads
      obtain ⟨rfl, _⟩ := List.cons.inj heads
      exact congrArg (first :: ·) (ih ranking.tail (List.pairwise_cons.1 ascending).2)

theorem unique (left : Ranking fallen order) (right : Ranking fallen other) : order = other :=
  eq_of_ascending ⟨left.ascending, fun value => (left.stable value).trans (right.stable value).symm⟩
    right.ascending

end Ranking

theorem Roll.ranking (roll : Roll) : Ranking roll.faces roll.ranked := by
  let before (first second : Face) : Bool := first.value ≤ second.value
  have trans : ∀ first second third : Face,
      before first second = true → before second third = true → before first third = true := by
    simp only [before, decide_eq_true_eq]
    intro first second third
    exact Int.le_trans
  have total : ∀ first second : Face, (before first second || before second first) = true := by
    simp only [before, Bool.or_eq_true, decide_eq_true_eq]
    intro first second
    exact Int.le_total _ _
  constructor
  · exact (List.pairwise_mergeSort trans total roll.faces).imp of_decide_eq_true
  · intro value
    -- The faces of one value are in order as they are, and an ordered sublist stays one.
    have own : (roll.faces.filter fun face => face.value = value).Pairwise
        fun first second => before first second = true := by
      apply List.pairwise_of_forall_mem_list
      intro first here second there
      simp_all [before]
    have within := (List.sublist_mergeSort trans total own List.filter_sublist).filter
      fun face => face.value = value
    rw [List.filter_filter] at within
    simp only [Bool.and_self] at within
    have length := ((List.mergeSort_perm roll.faces before).filter
      fun face => face.value = value).length_eq
    exact (within.eq_of_length length.symm).symm

theorem Roll.values_ranked_ascending (roll : Roll) :
    (roll.ranked.map Face.value).Pairwise (· ≤ ·) :=
  List.pairwise_map.2 roll.ranking.ascending

theorem Roll.values_ranked_perm (roll : Roll) : (roll.ranked.map Face.value).Perm roll.values :=
  roll.ranking.perm.map Face.value

def Side.opposite : Side → Side
  | .high => .low
  | .low => .high

def Side.arrange (side : Side) (taken left : List Face) : List Face :=
  match side with
  | .high => left ++ taken
  | .low => taken ++ left

def Side.Prefers : Side → Int → Int → Prop
  | .high, taken, left => left ≤ taken
  | .low, taken, left => taken ≤ left

namespace Roll

variable {roll : Roll} {side : Side} {count : Nat} {taken left : List Face}

/-- A selection by rank takes and leaves these faces of a roll. -/
structure Divided (roll : Roll) (side : Side) (taken left : List Face) : Prop where
  ranking : ∀ order, Ranking roll.faces order ↔ order = side.arrange taken left
  ascending : Ascending taken ∧ Ascending left
  perm : (taken ++ left).Perm roll.faces
  preferred : ∀ face ∈ taken, ∀ other ∈ left, side.Prefers face.value other.value
  text : roll.text = ", ".intercalate ((side.arrange taken left).map Face.label)

theorem divided_of_ranked (order : roll.ranked = side.arrange taken left) :
    roll.Divided side taken left := by
  have ranking := roll.ranking
  rw [order] at ranking
  have unique : ∀ other, Ranking roll.faces other ↔ other = side.arrange taken left :=
    fun other => ⟨fun another => another.unique ranking, fun same => same ▸ ranking⟩
  have text : roll.text = ", ".intercalate ((side.arrange taken left).map Face.label) := by
    rw [Roll.text, order]
  cases side with
  | high =>
    obtain ⟨lower, upper, apart⟩ := List.pairwise_append.1 ranking.ascending
    exact ⟨unique, ⟨upper, lower⟩, List.perm_append_comm.trans ranking.perm,
      fun face high other low => apart other low face high, text⟩
  | low =>
    obtain ⟨lower, upper, apart⟩ := List.pairwise_append.1 ranking.ascending
    exact ⟨unique, ⟨lower, upper⟩, ranking.perm, apart, text⟩

theorem select_of_le (enough : count ≤ roll.size) (choose : List Face → List Face) :
    roll.select count choose = .ok ⟨roll.die, choose roll.ranked⟩ :=
  if_pos enough

theorem select_of_lt (few : roll.size < count) (choose : List Face → List Face) :
    roll.select count choose = .error (.countOutOfRange count roll.size) :=
  if_neg (Nat.not_le.2 few)

/-- No more faces can be kept or dropped than there are. Otherwise what is kept and what is dropped
are the two ends of the one ranking of the roll, of these sizes, and to drop some faces is to keep
the others from the opposite side. The labels of a roll are shown in the order of its ranking. -/
theorem keep_drop_divide (roll : Roll) (count : Nat) (side : Side) :
    (roll.size < count →
      roll.keep count side = .error (.countOutOfRange count roll.size) ∧
      roll.drop count side = .error (.countOutOfRange count roll.size)) ∧
    (count ≤ roll.size → ∃ taken left,
      roll.keep count side = .ok ⟨roll.die, taken⟩ ∧
      roll.drop count side = .ok ⟨roll.die, left⟩ ∧
      taken.length = count ∧ left.length = roll.size - count ∧
      roll.Divided side taken left ∧
      roll.drop count side = roll.keep (roll.size - count) side.opposite) := by
  constructor
  · intro few
    cases side <;> exact ⟨select_of_lt few _, select_of_lt few _⟩
  · intro enough
    have others : roll.size - count ≤ roll.size := Nat.sub_le _ _
    have length := roll.length_ranked
    cases side with
    | high =>
      refine ⟨roll.ranked.drop (roll.size - count), roll.ranked.take (roll.size - count),
        select_of_le enough _, select_of_le enough _, ?_, ?_, ?_, ?_⟩
      · rw [List.length_drop, length]
        omega
      · rw [List.length_take, length]
        omega
      · exact divided_of_ranked (List.take_append_drop _ _).symm
      · exact (select_of_le enough _).trans (select_of_le others _).symm
    | low =>
      refine ⟨roll.ranked.take count, roll.ranked.drop count,
        select_of_le enough _, select_of_le enough _, ?_, ?_, ?_, ?_⟩
      · rw [List.length_take, length]
        omega
      · rw [List.length_drop, length]
      · exact divided_of_ranked (List.take_append_drop _ _).symm
      · have same : roll.size - (roll.size - count) = count := Nat.sub_sub_self enough
        refine (select_of_le enough _).trans (Eq.trans ?_ (select_of_le others _).symm)
        rw [same]

theorem keep_drop_divide_ties :
    let die : Die := ⟨[⟨1, "a"⟩, ⟨1, "b"⟩, ⟨2, "c"⟩, ⟨2, "d"⟩], by decide⟩
    let roll : Roll := ⟨die, [⟨2, "d"⟩, ⟨1, "b"⟩, ⟨2, "c"⟩, ⟨1, "a"⟩]⟩
    let taken : List Face := [⟨1, "a"⟩, ⟨2, "d"⟩, ⟨2, "c"⟩]
    roll.keep 3 .high = .ok ⟨die, taken⟩ ∧ roll.drop 3 .high = .ok ⟨die, [⟨1, "b"⟩]⟩ ∧
      roll.Divided .high taken [⟨1, "b"⟩] := by
  intro die roll taken
  have ranked : roll.ranked = [⟨1, "b"⟩, ⟨1, "a"⟩, ⟨2, "d"⟩, ⟨2, "c"⟩] := by
    simp [roll, Roll.ranked, List.mergeSort]
  have kept : roll.keep 3 .high = .ok ⟨die, taken⟩ := by
    rw [keep, select, ranked]
    rfl
  have dropped : roll.drop 3 .high = .ok ⟨die, [⟨1, "b"⟩]⟩ := by
    rw [drop, select, ranked]
    rfl
  obtain ⟨_, _, keeps, drops, _, _, divided, _⟩ :=
    (keep_drop_divide roll 3 .high).2 (by decide)
  cases kept.symm.trans keeps
  cases dropped.symm.trans drops
  exact ⟨kept, dropped, divided⟩

end Roll

end Tabletop
