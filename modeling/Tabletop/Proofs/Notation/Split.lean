import Mathlib.Data.List.TakeWhile
import Tabletop.Notation.Scan
import Tabletop.Proofs.Notation.Longest
import Tabletop.Proofs.Notation.Numbers

/-! Splitting a text by the leftmost-longest rule.

The rule knows no ranges: it splits every text into matches of the six patterns
and single characters. The scan gives the parts back in order, up to the first
match with a number out of range. -/

set_option autoImplicit false

namespace Tabletop.Notation

/-- A part of a text: a match, or one character at which none begins. -/
inductive Part where
  | spelled (position : Nat) (spelling : Spelling) (text : List Char)
  | loose (position : Nat) (char : Char)

/-- The leftmost-longest split of a text that begins at a position. -/
inductive Split : Nat → List Char → List Part → Prop where
  | done {position : Nat} : Split position [] []
  | spelled {position : Nat} {spelling : Spelling} {input text rest : List Char} {parts : List Part} :
      Longest spelling text input → input = text ++ rest →
      Split (position + text.length) rest parts →
      Split position input (.spelled position spelling text :: parts)
  | loose {position : Nat} {char : Char} {rest : List Char} {parts : List Part} :
      (∀ spelling text, Spells spelling text → ¬text <+: char :: rest) →
      Split (position + 1) rest parts → Split position (char :: rest) (.loose position char :: parts)

namespace Part

def position : Part → Nat
  | .spelled position _ _ | .loose position _ => position

def TooLarge : Part → Prop
  | .spelled _ spelling _ => ¬spelling.decimals.Fits
  | .loose _ _ => False

instance : DecidablePred TooLarge
  | .spelled _ spelling _ => inferInstanceAs (Decidable ¬spelling.decimals.Fits)
  | .loose _ _ => inferInstanceAs (Decidable False)

def lexeme? : Part → Option Lexeme
  | .spelled position spelling text => some ⟨spelling.decimals, position, String.ofList text⟩
  | .loose _ _ => none

def loose? : Part → Option (Nat × Char)
  | .spelled _ _ _ => none
  | .loose position char => some (position, char)

def placed : Part → List (Char × Nat)
  | .spelled position _ text => text.zipIdx position
  | .loose position char => [(char, position)]

end Part

/-- What the parts come to if the first number out of range ends the scan. -/
def Scan.ofParts (parts : List Part) : Scan where
  lexemes := (parts.takeWhile fun part => !part.TooLarge).filterMap Part.lexeme?
  residue := (parts.takeWhile fun part => !part.TooLarge).filterMap Part.loose?
  stopped := (parts.find? fun part => part.TooLarge).map fun part => (part.position, .tooLarge)

theorem Split.exists (position : Nat) (text : List Char) : ∃ parts, Split position text parts := by
  cases found : Spelling.atHead? text with
  | none =>
    cases text with
    | nil => exact ⟨[], .done⟩
    | cons char rest =>
      obtain ⟨parts, split⟩ := Split.exists (position + 1) rest
      exact ⟨_, .loose (atHead?_eq_none_iff.1 found) split⟩
  | some spelling =>
    have longest := atHead?_eq_some_iff.1 ⟨found, rfl⟩
    obtain ⟨rest, same⟩ := longest.2.1
    -- A match has a character, so less of the text is left.
    have some_char : 0 < spelling.text.length :=
      List.length_pos_iff.2 (Operation.chars_ne_nil id spelling)
    have shorter : rest.length < text.length := by
      rw [← same, List.length_append]
      omega
    obtain ⟨parts, split⟩ := Split.exists (position + spelling.text.length) rest
    exact ⟨_, .spelled longest same.symm split⟩
termination_by text.length

theorem Split.unique {position : Nat} {text : List Char} {first second : List Part}
    (left : Split position text first) (right : Split position text second) : first = second := by
  -- The head of the text decides how both splits begin.
  induction left generalizing second with
  | done =>
    cases right with
    | done => rfl
    | spelled longest same _ =>
      obtain ⟨char, rest, rfl, _⟩ := longest.1.exists_cons
      cases same
  | spelled longest same _ ih =>
    obtain ⟨found, rfl⟩ := atHead?_eq_some_iff.2 longest
    cases right with
    | done => cases found
    | spelled other alike tail =>
      obtain ⟨again, rfl⟩ := atHead?_eq_some_iff.2 other
      rw [found] at again
      cases again
      rw [same] at alike
      cases List.append_cancel_left alike
      rw [ih tail]
    | loose noMatch _ =>
      rw [atHead?_eq_none_iff.2 noMatch] at found
      cases found
  | loose noMatch _ ih =>
    cases right with
    | spelled longest _ _ => exact absurd longest.2.1 (noMatch _ _ longest.1)
    | loose _ tail => rw [ih tail]

namespace Scan

theorem ofParts_spelled {position : Nat} {spelling : Spelling} {text : List Char}
    {parts : List Part} (fits : spelling.decimals.Fits) :
    ofParts (.spelled position spelling text :: parts) =
      (ofParts parts).withLexeme ⟨spelling.decimals, position, String.ofList text⟩ := by
  have sound : ¬(Part.spelled position spelling text).TooLarge := not_not_intro fits
  simp [ofParts, withLexeme, sound, List.filterMap_cons, Part.lexeme?, Part.loose?]

theorem ofParts_stopped {position : Nat} {spelling : Spelling} {text : List Char}
    {parts : List Part} (tooLarge : ¬spelling.decimals.Fits) :
    ofParts (.spelled position spelling text :: parts) = ⟨[], [], some (position, .tooLarge)⟩ := by
  have unsound : (Part.spelled position spelling text).TooLarge := tooLarge
  simp [ofParts, unsound, Part.position]

theorem ofParts_loose {position : Nat} {char : Char} {parts : List Part} :
    ofParts (.loose position char :: parts) = (ofParts parts).withResidue position char := by
  have sound : ¬(Part.loose position char).TooLarge := id
  simp [ofParts, withResidue, sound, List.filterMap_cons, Part.lexeme?, Part.loose?]

theorem scanFrom_of_split {position : Nat} {text : List Char} {parts : List Part}
    (split : Split position text parts) : scanFrom position 0 text = ofParts parts := by
  induction split with
  | done => rfl
  | @spelled position spelling input text rest parts longest same _ ih =>
    obtain ⟨found, rfl⟩ := atHead?_eq_some_iff.2 longest
    have read := longest.1.token_eq
    subst same
    by_cases fits : spelling.decimals.Fits
    · rw [if_pos fits] at read
      rw [scanFrom_token found read, ih, ofParts_spelled fits]
    · -- The scan ends here, whatever the split goes on with.
      rw [if_neg fits] at read
      obtain ⟨char, others, head, _⟩ := longest.1.exists_cons
      rw [ofParts_stopped fits]
      rw [head, List.cons_append] at found ⊢
      simp only [scanFrom, found, read]
  | loose noMatch _ ih =>
    rw [ofParts_loose, ← ih]
    simp only [scanFrom, atHead?_eq_none_iff.2 noMatch]

end Scan

theorem Split.placed_eq {position : Nat} {text : List Char} {parts : List Part}
    (split : Split position text parts) : parts.flatMap Part.placed = text.zipIdx position := by
  induction split with
  | done => rfl
  | spelled _ same _ ih =>
    subst same
    rw [List.flatMap_cons, ih, List.zipIdx_append]
    rfl
  | loose _ _ ih =>
    rw [List.flatMap_cons, ih]
    rfl

def Lexeme.placed (lexeme : Lexeme) : List (Char × Nat) :=
  lexeme.text.toList.zipIdx lexeme.position

theorem placed_perm (parts : List Part) :
    (((parts.filterMap Part.lexeme?).flatMap Lexeme.placed) ++
      (parts.filterMap Part.loose?).map Prod.swap).Perm (parts.flatMap Part.placed) := by
  induction parts with
  | nil => exact .refl _
  | cons part parts ih =>
    cases part with
    | spelled position spelling text =>
      have chars : (⟨spelling.decimals, position, String.ofList text⟩ : Lexeme).placed =
          text.zipIdx position := by
        simp [Lexeme.placed]
      simpa [List.filterMap_cons, Part.lexeme?, Part.loose?, Part.placed, chars] using
        ih.append_left (text.zipIdx position)
    | loose position char =>
      simpa [List.filterMap_cons, Part.lexeme?, Part.loose?, Part.placed] using
        List.perm_middle.trans (ih.cons (char, position))

/-- The scan of a text is its one leftmost-longest split: the matches are its lexemes, with
their positions, texts and decimal values, and the single characters its residue. It is ended
by the first match that holds a number out of range, as too large, and by nothing else.
Without one, each character of the text belongs to exactly one lexeme or to the residue. -/
theorem Scan.ofText_eq_ofParts (text : List Char) :
    ∃ parts, (∀ other, Split 0 text other ↔ other = parts) ∧
      ofText text = ofParts parts ∧
      ((ofText text).stopped = none ↔ ∀ part ∈ parts, ¬part.TooLarge) ∧
      ((ofText text).stopped = none →
        ((ofText text).lexemes.flatMap Lexeme.placed ++ (ofText text).residue.map Prod.swap).Perm
          text.zipIdx) := by
  obtain ⟨parts, split⟩ := Split.exists 0 text
  have same : ofText text = ofParts parts := scanFrom_of_split split
  have stopped : (ofParts parts).stopped = none ↔ ∀ part ∈ parts, ¬part.TooLarge := by
    simp [ofParts]
  refine ⟨parts, ?_, same, same ▸ stopped, ?_⟩
  · intro other
    exact ⟨fun another => another.unique split, fun equal => equal ▸ split⟩
  · rw [same]
    intro sound
    have all : (parts.takeWhile fun part => !part.TooLarge) = parts :=
      List.takeWhile_eq_self_iff.2 (by simpa using stopped.1 sound)
    rw [← split.placed_eq]
    simpa only [ofParts, all] using placed_perm parts

end Tabletop.Notation
