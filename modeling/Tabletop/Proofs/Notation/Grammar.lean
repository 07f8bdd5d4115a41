import Tabletop.Proofs.Notation.Split
import Tabletop.Proofs.Text.Blanks

/-! The grammar of dice notation.

A text of the grammar is split into its tokens with blanks between them. Two
tokens may touch unless the second is a dice token: the first ends with a digit,
and the longest match takes all the digits that follow. -/

set_option autoImplicit false

namespace Tabletop.Notation

/-- Separators with a token behind each, and blanks at the end. A dice token needs a
separator that is not empty. -/
inductive Continued : Nat → List Char → List Lexeme → Prop where
  | finish {position : Nat} {gap : List Char} : Blank gap → Continued position gap []
  | token {position : Nat} {gap text rest : List Char} {spelling : Spelling}
      {lexemes : List Lexeme} :
      Blank gap → (spelling.IsDice → gap ≠ []) → Spells spelling text → spelling.decimals.Fits →
      Continued (position + gap.length + text.length) rest lexemes →
      Continued position (gap ++ (text ++ rest))
        (⟨spelling.decimals, position + gap.length, String.ofList text⟩ :: lexemes)

inductive Sentence : List Char → List Lexeme → Prop where
  | intro {gap text rest : List Char} {spelling : Spelling} {lexemes : List Lexeme} :
      Blank gap → spelling.IsDice → Spells spelling text → spelling.decimals.Fits →
      Continued (gap.length + text.length) rest lexemes →
      Sentence (gap ++ (text ++ rest))
        (⟨spelling.decimals, gap.length, String.ofList text⟩ :: lexemes)

/-- The parts are the lexemes in order, with only blanks between them. -/
inductive Clean : List Part → List Lexeme → Prop where
  | nil : Clean [] []
  | spelled {position : Nat} {spelling : Spelling} {text : List Char} {parts : List Part}
      {lexemes : List Lexeme} :
      spelling.decimals.Fits → Clean parts lexemes →
      Clean (.spelled position spelling text :: parts)
        (⟨spelling.decimals, position, String.ofList text⟩ :: lexemes)
  | loose {position : Nat} {char : Char} {parts : List Part} {lexemes : List Lexeme} :
      isBlank char = true → Clean parts lexemes → Clean (.loose position char :: parts) lexemes

def Reads (position : Nat) (text : List Char) (lexemes : List Lexeme) : Prop :=
  ∃ parts, Split position text parts ∧ Clean parts lexemes

theorem Scan.remainder?_eq_none_iff {scan : Scan} :
    scan.remainder? = none ↔ ∀ entry ∈ scan.residue, isBlank entry.2 = true := by
  simp [remainder?]

theorem clean_iff {parts : List Part} {lexemes : List Lexeme} :
    Clean parts lexemes ↔ (Scan.ofParts parts).stopped = none ∧
      (Scan.ofParts parts).remainder? = none ∧ (Scan.ofParts parts).lexemes = lexemes := by
  rw [Scan.remainder?_eq_none_iff]
  constructor
  · intro clean
    induction clean with
    | nil => exact ⟨rfl, by simp [Scan.ofParts], rfl⟩
    | spelled fits _ ih =>
      rw [Scan.ofParts_spelled fits]
      exact ⟨ih.1, ih.2.1, congrArg _ ih.2.2⟩
    | loose blank _ ih =>
      rw [Scan.ofParts_loose]
      exact ⟨ih.1, List.forall_mem_cons.2 ⟨blank, ih.2.1⟩, ih.2.2⟩
  · rintro ⟨stopped, blank, rfl⟩
    -- A scan that is not stopped gives every part back, so it can be followed part by part.
    induction parts with
    | nil => exact .nil
    | cons part parts ih =>
      cases part with
      | spelled position spelling text =>
        by_cases fits : spelling.decimals.Fits
        · rw [Scan.ofParts_spelled fits] at *
          exact .spelled fits (ih stopped blank)
        · rw [Scan.ofParts_stopped fits] at stopped
          cases stopped
      | loose position char =>
        rw [Scan.ofParts_loose] at *
        obtain ⟨first, others⟩ := List.forall_mem_cons.1 blank
        exact .loose first (ih stopped others)

theorem reads_iff {position : Nat} {text : List Char} {lexemes : List Lexeme} :
    Reads position text lexemes ↔ (Scan.scanFrom position 0 text).stopped = none ∧
      (Scan.scanFrom position 0 text).remainder? = none ∧
      (Scan.scanFrom position 0 text).lexemes = lexemes := by
  constructor
  · intro reads
    obtain ⟨parts, split, clean⟩ := reads
    rw [Scan.scanFrom_of_split split]
    exact clean_iff.1 clean
  · intro scanned
    obtain ⟨parts, split⟩ := Split.exists position text
    rw [Scan.scanFrom_of_split split] at scanned
    exact ⟨parts, split, clean_iff.2 scanned⟩

theorem noMatch_of_blank {char : Char} {rest text : List Char} {spelling : Spelling}
    (blank : isBlank char = true) (spells : Spells spelling text) : ¬text <+: char :: rest := by
  obtain ⟨first, others, rfl, start⟩ := spells.exists_cons
  intro head
  obtain ⟨rfl, _⟩ := List.cons_prefix_cons.1 head
  rcases start with ⟨_, isDigit⟩ | ⟨_, letter⟩
  · rw [not_isDigit_of_isBlank blank] at isDigit
    cases isDigit
  · rcases letter with rfl | rfl | rfl <;> exact absurd blank (by decide)

namespace Reads

theorem gap {position : Nat} {gap rest : List Char} {lexemes : List Lexeme} (blank : Blank gap)
    (reads : Reads (position + gap.length) rest lexemes) : Reads position (gap ++ rest) lexemes := by
  induction gap generalizing position with
  | nil => exact reads
  | cons char gap ih =>
    obtain ⟨first, others⟩ := Blank.cons_iff.1 blank
    -- The blank is a part of its own, and the rest begins one position further on.
    have moved : position + (char :: gap).length = position + 1 + gap.length := by
      rw [List.length_cons]
      omega
    rw [moved] at reads
    obtain ⟨parts, split, clean⟩ := ih others reads
    exact ⟨_, .loose (fun _ _ => noMatch_of_blank first) split, .loose first clean⟩

theorem token {position : Nat} {text rest : List Char} {spelling : Spelling}
    {lexemes : List Lexeme} (spells : Spells spelling text) (ends : spelling.Ends rest)
    (fits : spelling.decimals.Fits) (reads : Reads (position + text.length) rest lexemes) :
    Reads position (text ++ rest) (⟨spelling.decimals, position, String.ofList text⟩ :: lexemes) := by
  obtain ⟨parts, split, clean⟩ := reads
  exact ⟨_, .spelled (longest_append_iff.2 ⟨spells, ends⟩) rfl split, .spelled fits clean⟩

end Reads

theorem Reads.of_blank {position : Nat} {text : List Char} (blank : Blank text) :
    Reads position text [] := by
  have nothing : Reads (position + text.length) [] [] := ⟨[], .done, .nil⟩
  simpa using nothing.gap blank

theorem Reads.unique {position : Nat} {text : List Char} {first second : List Lexeme}
    (left : Reads position text first) (right : Reads position text second) : first = second :=
  (reads_iff.1 left).2.2.symm.trans (reads_iff.1 right).2.2

namespace Continued

/-- No token before it can go on into it. -/
theorem ends {position : Nat} {text : List Char} {lexemes : List Lexeme}
    (continued : Continued position text lexemes) (spelling : Spelling) : spelling.Ends text := by
  have blank_ends : ∀ {char : Char} {rest : List Char}, isBlank char = true →
      spelling.Ends (char :: rest) := fun blank =>
    spelling.ends_cons (not_isDigit_of_isBlank blank) (ne_of_isBlank blank (by decide))
  cases continued with
  | finish blank =>
    cases text with
    | nil => exact spelling.ends_nil
    | cons char rest => exact blank_ends (Blank.cons_iff.1 blank).1
  | @token _ gap _ _ next _ blank separated spells _ _ =>
    cases gap with
    | cons char gap => exact blank_ends (Blank.cons_iff.1 blank).1
    | nil =>
      -- A token that touches the one before it is no dice token, so it begins with a letter.
      obtain ⟨char, others, rfl, start⟩ := spells.exists_cons
      rcases start with ⟨dice, _⟩ | ⟨_, letter⟩
      · exact absurd rfl (separated dice)
      · rcases letter with rfl | rfl | rfl <;> exact spelling.ends_cons (by decide) (by decide)

theorem reads {position : Nat} {text : List Char} {lexemes : List Lexeme}
    (continued : Continued position text lexemes) : Reads position text lexemes := by
  induction continued with
  | finish blank => exact .of_blank blank
  | token blank _ spells fits tail ih => exact .gap blank (.token spells (tail.ends _) fits ih)

end Continued

theorem Split.continued {position start : Nat} {gap text : List Char} {parts : List Part}
    {lexemes : List Lexeme} (split : Split position text parts) (clean : Clean parts lexemes)
    (blank : Blank gap) (begin : position = start + gap.length)
    (free : gap = [] → DigitsEnd text) : Continued start (gap ++ text) lexemes := by
  induction split generalizing start gap lexemes with
  | done =>
    cases clean
    rw [List.append_nil]
    exact .finish blank
  | @spelled position spelling input text rest parts longest same _ ih =>
    cases clean with
    | spelled fits clean =>
      subst same begin
      obtain ⟨spells, ends⟩ := longest_append_iff.1 longest
      refine .token blank ?_ spells fits ?_
      · -- Behind a token a dice token needs a blank: the match before it took all the digits.
        intro dice none
        obtain ⟨char, others, rfl, start⟩ := spells.exists_cons
        have noDigit := digitsEnd_cons.1 (free none)
        rcases start with ⟨_, isDigit⟩ | ⟨noDice, _⟩
        · rw [isDigit] at noDigit
          cases noDigit
        · exact noDice dice
      · exact ih clean .nil rfl fun _ => ends.digitsEnd
  | @loose position char rest parts _ _ ih =>
    cases clean with
    | loose first clean =>
      have longer : Blank (gap ++ [char]) := by simp [blank, first]
      have begins : position + 1 = start + (gap ++ [char]).length := by
        rw [begin, List.length_append]
        rfl
      simpa using ih clean longer begins (by simp)

theorem Split.sentence {position : Nat} {gap text : List Char} {parts : List Part}
    {first : Lexeme} {lexemes : List Lexeme} (split : Split position text parts)
    (clean : Clean parts (first :: lexemes)) (blank : Blank gap) (begin : position = gap.length)
    (dice : first.token.IsDice) : Sentence (gap ++ text) (first :: lexemes) := by
  induction split generalizing gap with
  | done => cases clean
  | @spelled position spelling input text rest parts longest same tail _ =>
    cases clean with
    | spelled fits clean =>
      subst same begin
      obtain ⟨spells, ends⟩ := longest_append_iff.1 longest
      have continued := tail.continued clean .nil rfl fun _ => ends.digitsEnd
      exact .intro blank (Operation.isDice_map.1 dice) spells fits continued
  | @loose position char rest parts _ _ ih =>
    cases clean with
    | loose visible clean =>
      have longer : Blank (gap ++ [char]) := by simp [blank, visible]
      simpa using ih clean longer (by simp [begin])

theorem sentence_iff {text : List Char} {lexemes : List Lexeme} :
    Sentence text lexemes ↔ Reads 0 text lexemes ∧ ∃ first ∈ lexemes.head?, first.token.IsDice := by
  constructor
  · rintro (⟨blank, dice, spells, fits, tail⟩)
    have reads := Reads.token spells (tail.ends _) fits tail.reads
    exact ⟨.gap blank (by rwa [Nat.zero_add]), _, rfl, Operation.isDice_map.2 dice⟩
  · rintro ⟨⟨parts, split, clean⟩, first, head, dice⟩
    obtain ⟨others, rfl⟩ := List.head?_eq_some_iff.1 head
    exact split.sentence clean .nil rfl dice

end Tabletop.Notation
