import Tabletop.Proofs.Notation.Grammar

/-! Where in a text its lexemes and its residue stand. -/

set_option autoImplicit false

namespace Tabletop.Notation

def Part.chars : Part → List Char
  | .spelled _ _ text => text
  | .loose _ char => [char]

/-- The characters stand in the text at a position. -/
def StandsAt (text : List Char) (position : Nat) (chars : List Char) : Prop :=
  ∃ before behind, text = before ++ (chars ++ behind) ∧ before.length = position

theorem StandsAt.lt_length {text chars : List Char} {position : Nat}
    (stands : StandsAt text position chars) (some_char : chars ≠ []) : position < text.length := by
  obtain ⟨before, behind, rfl, rfl⟩ := stands
  have positive := List.length_pos_iff.2 some_char
  simp only [List.length_append]
  omega

theorem Split.part_stands {start : Nat} {text : List Char} {parts : List Part} {part : Part}
    (split : Split start text parts) (member : part ∈ parts) :
    part.chars ≠ [] ∧ ∃ distance, part.position = start + distance ∧
      StandsAt text distance part.chars := by
  induction split with
  | done => cases member
  | @spelled position spelling input text rest parts longest same _ ih =>
    subst same
    rcases List.mem_cons.1 member with rfl | later
    · obtain ⟨char, others, rfl, _⟩ := longest.1.exists_cons
      exact ⟨List.cons_ne_nil _ _, 0, rfl, [], rest, rfl, rfl⟩
    · obtain ⟨some_char, distance, moved, before, behind, rfl, rfl⟩ := ih later
      refine ⟨some_char, text.length + before.length, by omega, text ++ before, behind, ?_, ?_⟩
      · rw [List.append_assoc]
      · exact List.length_append
  | @loose position char rest parts _ _ ih =>
    rcases List.mem_cons.1 member with rfl | later
    · exact ⟨List.cons_ne_nil _ _, 0, rfl, [], rest, rfl, rfl⟩
    · obtain ⟨some_char, distance, moved, before, behind, rfl, rfl⟩ := ih later
      exact ⟨some_char, before.length + 1, by omega, char :: before, behind, rfl, rfl⟩

theorem Split.stands {text : List Char} {parts : List Part} {part : Part}
    (split : Split 0 text parts) (member : part ∈ parts) :
    part.chars ≠ [] ∧ StandsAt text part.position part.chars := by
  obtain ⟨some_char, distance, place, stands⟩ := split.part_stands member
  rw [place, Nat.zero_add]
  exact ⟨some_char, stands⟩

namespace Scan

variable {text : List Char}

theorem lexeme_stands {lexeme : Lexeme} (member : lexeme ∈ (ofText text).lexemes) :
    lexeme.text.toList ≠ [] ∧ StandsAt text lexeme.position lexeme.text.toList := by
  obtain ⟨parts, split⟩ := Split.exists 0 text
  rw [ofText, scanFrom_of_split split] at member
  obtain ⟨part, taken, same⟩ := List.mem_filterMap.1 member
  have stands := split.stands ((List.takeWhile_sublist _).subset taken)
  cases part with
  | loose => cases same
  | spelled position spelling chars =>
    cases same
    rw [String.toList_ofList]
    exact stands

theorem residue_lt_length {entry : Nat × Char} (member : entry ∈ (ofText text).residue) :
    entry.1 < text.length := by
  obtain ⟨parts, split⟩ := Split.exists 0 text
  rw [ofText, scanFrom_of_split split] at member
  obtain ⟨part, taken, same⟩ := List.mem_filterMap.1 member
  obtain ⟨some_char, stands⟩ := split.stands ((List.takeWhile_sublist _).subset taken)
  cases part with
  | spelled => cases same
  | loose position char =>
    cases same
    exact stands.lt_length some_char

theorem stopped_lt_length {position : Nat} {numeral : NumeralFault}
    (stopped : (ofText text).stopped = some (position, numeral)) : position < text.length := by
  obtain ⟨parts, split⟩ := Split.exists 0 text
  rw [ofText, scanFrom_of_split split] at stopped
  obtain ⟨part, found, same⟩ := Option.map_eq_some_iff.1 stopped
  cases same
  obtain ⟨some_char, stands⟩ := split.stands (List.mem_of_find?_eq_some found)
  exact stands.lt_length some_char

theorem exists_split_of_scanned (scanned : (ofText text).stopped = none) :
    ∃ parts, Split 0 text parts ∧ (ofText text).lexemes = parts.filterMap Part.lexeme? ∧
      (ofText text).residue = parts.filterMap Part.loose? := by
  obtain ⟨parts, split⟩ := Split.exists 0 text
  rw [ofText, scanFrom_of_split split] at scanned ⊢
  have all : (parts.takeWhile fun part => !part.TooLarge) = parts :=
    List.takeWhile_eq_self_iff.2 (by simpa [ofParts] using scanned)
  refine ⟨parts, split, ?_, ?_⟩
  · rw [ofParts, all]
  · rw [ofParts, all]

end Scan

theorem loose_sublist (parts : List Part) :
    ((parts.filterMap Part.loose?).map Prod.swap).Sublist (parts.flatMap Part.placed) := by
  induction parts with
  | nil => exact .slnil
  | cons part parts ih =>
    cases part with
    | spelled => exact ih.trans (List.sublist_append_right _ _)
    | loose position char => exact ih.cons_cons (char, position)

def Lexeme.Covers (lexeme : Lexeme) (place : Nat) : Prop :=
  lexeme.position ≤ place ∧ place < lexeme.position + lexeme.text.length

theorem Lexeme.covers_iff {lexeme : Lexeme} {place : Nat} :
    lexeme.Covers place ↔ ∃ char, (char, place) ∈ lexeme.placed := by
  constructor
  · rintro ⟨below, above⟩
    have inside : place - lexeme.position < lexeme.text.toList.length := by
      rw [String.length_toList]
      omega
    exact ⟨_, List.mk_mem_zipIdx_iff_le_and_getElem?_sub.2 ⟨below, List.getElem?_eq_getElem inside⟩⟩
  · rintro ⟨char, member⟩
    obtain ⟨below, found⟩ := List.mk_mem_zipIdx_iff_le_and_getElem?_sub.1 member
    obtain ⟨inside, _⟩ := List.getElem?_eq_some_iff.1 found
    rw [String.length_toList] at inside
    exact ⟨below, by omega⟩

namespace Scan

section
variable {text : List Char} {place : Nat} {char : Char}
  (scanned : (ofText text).stopped = none)
include scanned

theorem placed_perm_zipIdx :
    ((ofText text).lexemes.flatMap Lexeme.placed ++ (ofText text).residue.map Prod.swap).Perm
      text.zipIdx := by
  obtain ⟨parts, split, lexemes, residue⟩ := exists_split_of_scanned scanned
  rw [lexemes, residue, ← split.placed_eq]
  exact placed_perm parts

theorem residue_sublist_zipIdx : ((ofText text).residue.map Prod.swap).Sublist text.zipIdx := by
  obtain ⟨parts, split, _, residue⟩ := exists_split_of_scanned scanned
  rw [residue, ← split.placed_eq]
  exact loose_sublist parts

theorem residue_ascending : ((ofText text).residue.map Prod.fst).Pairwise (· < ·) := by
  have ordered := (residue_sublist_zipIdx scanned).map Prod.snd
  rw [List.zipIdx_map_snd, List.map_map] at ordered
  exact (List.pairwise_lt_range' 1).sublist ordered

theorem covered_or_residue (stands : text[place]? = some char) :
    (∃ lexeme ∈ (ofText text).lexemes, lexeme.Covers place) ∨ (place, char) ∈ (ofText text).residue := by
  have placed := (placed_perm_zipIdx scanned).mem_iff.2 (List.mk_mem_zipIdx_iff_getElem?.2 stands)
  rcases List.mem_append.1 placed with covered | left
  · obtain ⟨lexeme, member, inside⟩ := List.mem_flatMap.1 covered
    exact .inl ⟨lexeme, member, Lexeme.covers_iff.2 ⟨char, inside⟩⟩
  · obtain ⟨⟨_, _⟩, member, same⟩ := List.mem_map.1 left
    cases same
    exact .inr member

theorem stands_of_residue (member : (place, char) ∈ (ofText text).residue) :
    text[place]? = some char :=
  List.mk_mem_zipIdx_iff_getElem?.1
    ((residue_sublist_zipIdx scanned).subset (List.mem_map_of_mem member))

theorem not_covers_of_residue (member : (place, char) ∈ (ofText text).residue) :
    ∀ lexeme ∈ (ofText text).lexemes, ¬lexeme.Covers place := by
  intro lexeme lexical covers
  obtain ⟨other, placed⟩ := Lexeme.covers_iff.1 covers
  have distinct : ((((ofText text).lexemes.flatMap Lexeme.placed) ++
      (ofText text).residue.map Prod.swap).map Prod.snd).Nodup := by
    rw [((placed_perm_zipIdx scanned).map Prod.snd).nodup_iff, List.zipIdx_map_snd]
    exact List.nodup_range'
  rw [List.map_append] at distinct
  have apart := (List.nodup_append.1 distinct).2.2
  refine apart place ?_ place ?_ rfl
  · exact List.mem_map.2 ⟨_, List.mem_flatMap.2 ⟨lexeme, lexical, placed⟩, rfl⟩
  · exact List.mem_map.2 ⟨_, List.mem_map_of_mem member, rfl⟩

end

end Scan

/-- The character stands first among those that are neither blank nor of a lexeme. -/
structure FirstLoose (text : List Char) (place : Nat) (char : Char) : Prop where
  stands : text[place]? = some char
  visible : isBlank char = false
  loose : ∀ lexeme ∈ (Scan.ofText text).lexemes, ¬lexeme.Covers place
  first : ∀ earlier < place, ∀ other, text[earlier]? = some other → isBlank other = false →
    ∃ lexeme ∈ (Scan.ofText text).lexemes, lexeme.Covers earlier

theorem Scan.firstLoose_of_find? {text : List Char} {place : Nat} {char : Char}
    (scanned : (ofText text).stopped = none)
    (found : ((ofText text).residue.find? fun entry => !isBlank entry.2) = some (place, char)) :
    FirstLoose text place char := by
  have member := List.mem_of_find?_eq_some found
  obtain ⟨visible, before, behind, entries, blank⟩ := List.find?_eq_some_iff_append.1 found
  refine ⟨stands_of_residue scanned member, by simpa using visible,
    not_covers_of_residue scanned member, ?_⟩
  intro earlier less other stands seen
  rcases covered_or_residue scanned stands with covered | left
  · exact covered
  · -- The residue is in order, so what is found in it first stands first.
    exfalso
    have ascending := residue_ascending scanned
    rw [entries] at left ascending
    simp only [List.map_append, List.map_cons, List.pairwise_append, List.pairwise_cons] at ascending
    rcases List.mem_append.1 left with front | left
    · simpa [seen] using blank _ front
    · rcases List.mem_cons.1 left with same | back
      · cases same
        exact Nat.lt_irrefl _ less
      · exact Nat.lt_asymm less (ascending.2.1.1 _ (List.mem_map_of_mem back))

theorem Scan.remainder?_firstLoose {text : List Char} {position : Nat} {remainder : String}
    (scanned : (ofText text).stopped = none)
    (remains : (ofText text).remainder? = some (position, remainder)) :
    (∃ char, remainder.toList.head? = some char ∧ FirstLoose text position char) ∧
      ∀ char ∈ remainder.toList.getLast?, isBlank char = false := by
  obtain ⟨⟨place, char⟩, found, same⟩ := Option.map_eq_some_iff.1 remains
  cases same
  rw [String.toList_ofList]
  refine ⟨⟨char, ?_, firstLoose_of_find? scanned found⟩, getLast?_trim _⟩
  rw [head?_trim, List.find?_map]
  exact congrArg (Option.map Prod.snd) found

end Tabletop.Notation
