import Tabletop.Proofs.Notation.Grammar

/-! Tokens written one after the other are read back. -/

set_option autoImplicit false

namespace Tabletop.Notation

def Operation.HasValues {ν : Type} : Operation ν → Prop
  | .dice _ _ | .keep _ _ | .drop _ _ => True
  | .keepValues values | .dropValues values | .explode values => values ≠ []

instance : DecidablePred (@Operation.HasValues Nat)
  | .dice _ _ | .keep _ _ | .drop _ _ => inferInstanceAs (Decidable True)
  | .keepValues values | .dropValues values | .explode values =>
    inferInstanceAs (Decidable (values ≠ []))

/-- The token can stand in a text: its lists are not empty and its numbers are in range. -/
def Token.Writable (token : Token) : Prop := token.HasValues ∧ token.Fits

instance : DecidablePred Token.Writable := fun token =>
  inferInstanceAs (Decidable (token.HasValues ∧ token.Fits))

theorem digitList_intercalate {runs : List (List Char)} (some_run : runs ≠ [])
    (digits : ∀ run ∈ runs, Digits run) : DigitList runs ([','].intercalate runs) := by
  induction runs with
  | nil => exact absurd rfl some_run
  | cons run runs ih =>
    obtain ⟨first, others⟩ := List.forall_mem_cons.1 digits
    -- The last run has no comma behind it.
    cases runs with
    | nil => simpa [List.intercalate] using DigitList.single first
    | cons second runs =>
      simpa [List.intercalate] using DigitList.cons first (ih (by simp) others)

namespace Token

def spelling (token : Token) : Spelling := token.map (Nat.toDigits 10)

theorem decimals_spelling (token : Token) : token.spelling.decimals = token := by
  cases token <;> simp [spelling, Spelling.decimals, Operation.map, Function.comp_def]

theorem spells_text {token : Token} (hasValues : token.HasValues) :
    Spells token.spelling token.text.toList := by
  have list : ∀ {values : List Nat}, values ≠ [] →
      DigitList (values.map (Nat.toDigits 10)) ([','].intercalate (values.map (Nat.toDigits 10))) :=
    fun some_value => digitList_intercalate (by simpa using some_value) (by simp [Digits.toDigits])
  rw [text, String.toList_ofList]
  cases token with
  | dice count faces => exact .dice (.toDigits count) (.toDigits faces)
  | keep side count => exact .keep (.toDigits count)
  | drop side count => exact .drop (.toDigits count)
  | keepValues values => exact .keepValues (list hasValues)
  | dropValues values => exact .dropValues (list hasValues)
  | explode values => exact .explode (list hasValues)

end Token

def written (entries : List (List Char × Token)) : List Char :=
  entries.flatMap fun entry => entry.1 ++ entry.2.text.toList

/-- The separators are blank, and those of dice tokens behind another token are not empty. -/
def Spaced (entries : List (List Char × Token)) : Prop :=
  (∀ entry ∈ entries, Blank entry.1) ∧ ∀ entry ∈ entries.tail, entry.2.IsDice → entry.1 ≠ []

instance : DecidablePred Spaced := fun entries =>
  inferInstanceAs (Decidable ((∀ entry ∈ entries, Blank entry.1) ∧
    ∀ entry ∈ entries.tail, entry.2.IsDice → entry.1 ≠ []))

def writtenLexemes : Nat → List (List Char × Token) → List Lexeme
  | _, [] => []
  | position, (gap, token) :: rest =>
    ⟨token, position + gap.length, token.text⟩ ::
      writtenLexemes (position + gap.length + token.text.toList.length) rest

theorem map_token_writtenLexemes (position : Nat) (entries : List (List Char × Token)) :
    (writtenLexemes position entries).map Lexeme.token = entries.map Prod.snd := by
  induction entries generalizing position with
  | nil => rfl
  | cons entry rest ih => exact congrArg (entry.2 :: ·) (ih _)

theorem writtenLexemes_append (position : Nat) (before after : List (List Char × Token)) :
    writtenLexemes position (before ++ after) =
      writtenLexemes position before ++ writtenLexemes (position + (written before).length) after := by
  induction before generalizing position with
  | nil => rfl
  | cons entry before ih =>
    obtain ⟨gap, token⟩ := entry
    simp [writtenLexemes, written, ih, Nat.add_assoc]

theorem exists_entry_of_writtenLexemes {position : Nat} {entries : List (List Char × Token)}
    {earlier later : List Lexeme} {lexeme : Lexeme}
    (split : writtenLexemes position entries = earlier ++ lexeme :: later) :
    ∃ before gap token after, entries = before ++ (gap, token) :: after ∧
      earlier = writtenLexemes position before ∧
      lexeme = ⟨token, position + (written before).length + gap.length, token.text⟩ := by
  induction earlier generalizing position entries with
  | nil =>
    cases entries with
    | nil => cases split
    | cons entry rest =>
      obtain ⟨gap, token⟩ := entry
      cases split
      exact ⟨[], gap, token, rest, rfl, rfl, rfl⟩
  | cons first earlier ih =>
    cases entries with
    | nil => cases split
    | cons entry rest =>
      obtain ⟨gap, token⟩ := entry
      obtain ⟨rfl, tail⟩ := List.cons.inj split
      obtain ⟨before, other, next, after, rfl, rfl, rfl⟩ := ih tail
      refine ⟨(gap, token) :: before, other, next, after, rfl, rfl, ?_⟩
      simp [written, Nat.add_assoc]

section
variable {entries : List (List Char × Token)} {trail : List Char}

theorem continued_written (position : Nat) (blank : ∀ entry ∈ entries, Blank entry.1)
    (separated : ∀ entry ∈ entries, entry.2.IsDice → entry.1 ≠ [])
    (writable : ∀ entry ∈ entries, entry.2.Writable) (trailing : Blank trail) :
    Continued position (written entries ++ trail) (writtenLexemes position entries) := by
  induction entries generalizing position with
  | nil => exact .finish trailing
  | cons entry rest ih =>
    obtain ⟨gap, token⟩ := entry
    obtain ⟨⟨hasValues, fits⟩, others⟩ := List.forall_mem_cons.1 writable
    have tail := ih (position + gap.length + token.text.toList.length)
      (List.forall_mem_cons.1 blank).2 (List.forall_mem_cons.1 separated).2 others
    have apart : token.spelling.IsDice → gap ≠ [] := fun dice =>
      (List.forall_mem_cons.1 separated).1 (Operation.isDice_map.1 dice)
    have continued := Continued.token (List.forall_mem_cons.1 blank).1 apart
      (Token.spells_text hasValues) (by rwa [Token.decimals_spelling]) tail
    simpa [written, writtenLexemes, Token.decimals_spelling] using continued

theorem reads_written (spaced : Spaced entries) (writable : ∀ entry ∈ entries, entry.2.Writable)
    (trailing : Blank trail) :
    Reads 0 (written entries ++ trail) (writtenLexemes 0 entries) := by
  obtain ⟨blank, separated⟩ := spaced
  cases entries with
  | nil => exact (Continued.finish trailing).reads
  | cons entry rest =>
    -- The first token needs no separator, so it is read on its own, the others as continuing it.
    obtain ⟨gap, token⟩ := entry
    obtain ⟨⟨hasValues, fits⟩, others⟩ := List.forall_mem_cons.1 writable
    have tail := continued_written (0 + gap.length + token.text.toList.length)
      (List.forall_mem_cons.1 blank).2 separated others trailing
    have reads := Reads.gap (List.forall_mem_cons.1 blank).1
      (.token (Token.spells_text hasValues) (tail.ends _) (by rwa [Token.decimals_spelling])
        tail.reads)
    simpa [written, writtenLexemes, Token.decimals_spelling] using reads

end

/-- A text is read without a fault, without text that belongs to no token and with a dice token
first exactly if it is a sentence, and then as the tokens of the sentence. In particular tokens
that are written, one of any kind first, are read back. -/
theorem Scan.ofText_grammar :
    (∀ text lexemes, Sentence text lexemes ↔
      (ofText text).stopped = none ∧ (ofText text).remainder? = none ∧
        (ofText text).lexemes = lexemes ∧ ∃ first ∈ lexemes.head?, first.token.IsDice) ∧
    ∀ entries trail, Spaced entries → (∀ entry ∈ entries, entry.2.Writable) → Blank trail →
      (ofText (written entries ++ trail)).stopped = none ∧
        (ofText (written entries ++ trail)).remainder? = none ∧
        (ofText (written entries ++ trail)).lexemes.map Lexeme.token = entries.map Prod.snd := by
  constructor
  · intro text lexemes
    rw [sentence_iff, reads_iff, and_assoc, and_assoc]
    exact Iff.rfl
  · intro entries trail spaced writable trailing
    obtain ⟨stopped, remainder, lexemes⟩ := reads_iff.1 (reads_written spaced writable trailing)
    exact ⟨stopped, remainder, by rw [ofText, lexemes, map_token_writtenLexemes]⟩

theorem Scan.ofText_grammar_apply :
    let entries := [([' '], Operation.dice 3 6), ([], .keep .high 2), ([' ', '\t'], .dice 12 20),
      ([], .explode [5, 20])]
    written entries = " 3d6Kh2 \t12d20X5,20".toList ∧
      (ofText " 3d6Kh2 \t12d20X5,20\n".toList).remainder? = none ∧
      (ofText " 3d6Kh2 \t12d20X5,20\n".toList).lexemes.map Lexeme.token = entries.map Prod.snd := by
  intro entries
  have read := ofText_grammar.2 entries ['\n'] (by decide) (by decide) (by decide)
  exact ⟨by decide, read.2.1, read.2.2⟩

end Tabletop.Notation
