import Tabletop.Proofs.Notation.Pattern

/-! What is found at the head of a text is the longest head that matches a pattern.

The proof goes through the text behind a match: a match that could go on is not
the longest, and one that cannot go on is the one found. -/

set_option autoImplicit false

namespace Tabletop.Notation

/-- The text matches a pattern and is a head of the input, and no longer head matches one. -/
def Longest (spelling : Spelling) (text input : List Char) : Prop :=
  Spells spelling text ∧ text <+: input ∧
    ∀ other head, Spells other head → head <+: input → head.length ≤ text.length

theorem digitRuns_of_digitsEnd {text : List Char} (ends : DigitsEnd text) : digitRuns text = [] := by
  unfold digitRuns
  split
  · rfl
  · next char rest => simp [digitsEnd_cons.1 ends]
  · next char rest _ => simp [digitsEnd_cons.1 ends]

/-- What a digit is joined with decides what its whole run is joined with. -/
theorem digitRuns_append_digits {run rest : List Char} {more : List (List Char)}
    (digits : Digits run)
    (behind : ∀ char, char.isDigit = true → digitRuns (char :: rest) = [char] :: more) :
    digitRuns (run ++ rest) = run :: more := by
  obtain ⟨some_digit, all⟩ := digits
  induction run with
  | nil => exact absurd rfl some_digit
  | cons char others ih =>
    have isDigit := all char (by simp)
    cases others with
    | nil => exact behind char isDigit
    | cons second others =>
      have same := ih (by simp) (fun other member => all other (by simp [member]))
      -- The next character is a digit, so it is no comma and the run goes on with it.
      have noComma : second ≠ ',' := by
        rintro rfl
        exact absurd (all ',' (by simp)) (by decide)
      rw [List.cons_append] at same ⊢
      rw [List.cons_append, digitRuns, same]
      · simp [isDigit]
      · intro left equal
        exact noComma (List.cons.inj equal).1

theorem digitRuns_single {char : Char} {rest : List Char} (isDigit : char.isDigit = true)
    (ends : ListEnds rest) : digitRuns (char :: rest) = [[char]] := by
  unfold digitRuns
  split
  · cases ‹_ :: _ = []›
  · next same =>
    obtain ⟨rfl, rfl⟩ := List.cons.inj same
    simp [isDigit, digitRuns_of_digitsEnd (ends.2 _ rfl)]
  · next same =>
    obtain ⟨rfl, rfl⟩ := List.cons.inj same
    simp [isDigit, digitRuns_of_digitsEnd ends.1]

theorem digitRuns_of_list {runs : List (List Char)} {text rest : List Char}
    (list : DigitList runs text) (ends : ListEnds rest) : digitRuns (text ++ rest) = runs := by
  induction list with
  | single run => exact digitRuns_append_digits run fun _ isDigit => digitRuns_single isDigit ends
  | cons run _ ih =>
    rw [List.append_assoc]
    apply digitRuns_append_digits run
    intro char isDigit
    simp [digitRuns, isDigit, ih]

theorem digitList_digitRuns {text : List Char} (some_run : digitRuns text ≠ []) :
    DigitList (digitRuns text) ([','].intercalate (digitRuns text)) := by
  fun_induction digitRuns text with
  | case1 => exact absurd rfl some_run
  | case2 char rest digit ih =>
    have one : Digits [char] := ⟨by simp, by simp [digit]⟩
    -- Without a list behind it the comma is not taken.
    cases runs : digitRuns rest with
    | nil => exact .single one
    | cons run more =>
      rw [runs] at ih
      exact .cons one (ih (by simp))
  | case3 char rest noDigit => exact absurd rfl some_run
  | case4 char rest _ digit none => exact .single ⟨by simp, by simp [digit]⟩
  | case5 char rest _ digit run runs more ih =>
    rw [more] at ih
    have joined := (ih (by simp)).first digit
    cases runs <;> simpa [List.intercalate] using joined
  | case6 char rest _ noDigit => exact absurd rfl some_run

namespace Spelling

theorem withCount_of_digits {operation : List Char → Spelling} {count rest : List Char}
    (digits : Digits count) (ends : DigitsEnd rest) :
    withCount operation (count ++ rest) = some (operation count) := by
  unfold withCount
  rw [digits.takeWhile_append ends]
  obtain ⟨char, others, rfl, _⟩ := digits.exists_cons
  rfl

theorem withValues_of_list {operation : List (List Char) → Spelling} {values : List (List Char)}
    {list rest : List Char} (digits : DigitList values list) (ends : ListEnds rest) :
    withValues operation (list ++ rest) = some (operation values) := by
  unfold withValues
  rw [digitRuns_of_list digits ends]
  obtain ⟨run, runs, rfl⟩ := List.exists_cons_of_ne_nil digits.ne_nil
  rfl

theorem dice?_of_digits {count faces rest : List Char} (first : Digits count)
    (second : Digits faces) (ends : DigitsEnd rest) :
    dice? (count ++ 'd' :: (faces ++ rest)) = some (.dice count faces) := by
  have letter : DigitsEnd ('d' :: (faces ++ rest)) := digitsEnd_cons.2 (by decide)
  unfold dice?
  rw [first.takeWhile_append letter, first.dropWhile_append letter]
  obtain ⟨char, others, rfl, _⟩ := first.exists_cons
  exact withCount_of_digits second ends

theorem atHead?_of_digit {char : Char} {rest : List Char} (isDigit : char.isDigit = true) :
    atHead? (char :: rest) = dice? (char :: rest) := by
  unfold atHead?
  split
  case h_8 => rfl
  -- The seven other cases begin with a letter.
  all_goals
    next same =>
      obtain ⟨rfl, _⟩ := List.cons.inj same
      exact absurd isDigit (by decide)

theorem atHead?_of_spells {spelling : Spelling} {text rest : List Char}
    (spells : Spells spelling text) (ends : spelling.Ends rest) :
    atHead? (text ++ rest) = some spelling := by
  cases spells with
  | @dice count faces first second =>
    have found := dice?_of_digits first second ends
    obtain ⟨char, others, rfl, isDigit⟩ := first.exists_cons
    simpa [atHead?_of_digit isDigit] using found
  | @keep side _ digits => cases side <;> exact withCount_of_digits digits ends
  | @drop side _ digits => cases side <;> exact withCount_of_digits digits ends
  | keepValues list => exact withValues_of_list list ends
  | dropValues list => exact withValues_of_list list ends
  | explode list => exact withValues_of_list list ends

theorem digits_of_withCount {operation : List Char → Spelling} {input : List Char}
    {spelling : Spelling} (found : withCount operation input = some spelling) :
    ∃ digits, Digits digits ∧ spelling = operation digits := by
  unfold withCount at found
  split at found
  · cases found
  · next some_digit =>
    cases found
    exact ⟨_, digits_of_takeWhile some_digit, rfl⟩

theorem list_of_withValues {operation : List (List Char) → Spelling} {input : List Char}
    {spelling : Spelling} (found : withValues operation input = some spelling) :
    ∃ values, DigitList values ([','].intercalate values) ∧ spelling = operation values := by
  unfold withValues at found
  split at found
  · cases found
  · next some_run =>
    cases found
    exact ⟨_, digitList_digitRuns some_run, rfl⟩

theorem spells_of_dice? {input : List Char} {spelling : Spelling}
    (found : dice? input = some spelling) : Spells spelling spelling.text := by
  unfold dice? at found
  split at found
  · cases found
  · next some_digit =>
    obtain ⟨faces, digits, rfl⟩ := digits_of_withCount found
    simpa [text, Operation.chars] using Spells.dice (digits_of_takeWhile some_digit) digits
  · cases found

theorem spells_of_atHead? {input : List Char} {spelling : Spelling}
    (found : atHead? input = some spelling) : Spells spelling spelling.text := by
  unfold atHead? at found
  split at found
  case h_8 => exact spells_of_dice? found
  case h_1 | h_2 =>
    obtain ⟨count, digits, rfl⟩ := digits_of_withCount found
    simpa [text, Operation.chars] using Spells.keep digits
  case h_4 | h_5 =>
    obtain ⟨count, digits, rfl⟩ := digits_of_withCount found
    simpa [text, Operation.chars] using Spells.drop digits
  case h_3 =>
    obtain ⟨values, list, rfl⟩ := list_of_withValues found
    simpa [text, Operation.chars] using Spells.keepValues list
  case h_6 =>
    obtain ⟨values, list, rfl⟩ := list_of_withValues found
    simpa [text, Operation.chars] using Spells.dropValues list
  case h_7 =>
    obtain ⟨values, list, rfl⟩ := list_of_withValues found
    simpa [text, Operation.chars] using Spells.explode list

end Spelling

theorem Spells.unique {first second : Spelling} {text : List Char} (left : Spells first text)
    (right : Spells second text) : first = second := by
  have found := Spelling.atHead?_of_spells left first.ends_nil
  rw [Spelling.atHead?_of_spells right second.ends_nil] at found
  exact (Option.some.inj found).symm

theorem atHead?_eq_none_iff {input : List Char} :
    Spelling.atHead? input = none ↔ ∀ spelling text, Spells spelling text → ¬text <+: input := by
  constructor
  · intro none spelling text spells head
    obtain ⟨rest, rfl⟩ := head
    -- Made as long as it can be, the match would be found.
    obtain ⟨longer, more, behind, rfl, all, ends⟩ := spells.extend rest
    have found := Spelling.atHead?_of_spells all ends
    rw [List.append_assoc, none] at found
    cases found
  · intro noMatch
    cases found : Spelling.atHead? input with
    | none => rfl
    | some spelling =>
      obtain ⟨rest, same⟩ := Spelling.atHead?_append found
      exact absurd ⟨rest, same.symm⟩ (noMatch _ _ (Spelling.spells_of_atHead? found))

theorem longest_append_iff {spelling : Spelling} {text rest : List Char} :
    Longest spelling text (text ++ rest) ↔ Spells spelling text ∧ spelling.Ends rest := by
  constructor
  · rintro ⟨spells, _, longest⟩
    obtain ⟨longer, more, behind, rfl, all, ends⟩ := spells.extend rest
    -- A match that goes on would be longer than the longest.
    have bound := longest longer (text ++ more) all ⟨behind, List.append_assoc _ _ _⟩
    rw [List.length_append] at bound
    have none : more = [] := List.length_eq_zero_iff.1 (by omega)
    subst none
    rw [List.append_nil] at all
    cases spells.unique all
    exact ⟨spells, ends⟩
  · rintro ⟨spells, ends⟩
    refine ⟨spells, List.prefix_append _ _, ?_⟩
    have found := Spelling.atHead?_of_spells spells ends
    -- Another match, made as long as it can be, is the one found.
    rintro other head another ⟨left, same⟩
    obtain ⟨longer, more, behind, rfl, all, end_more⟩ := another.extend left
    rw [← List.append_assoc] at same
    have again := Spelling.atHead?_of_spells all end_more
    rw [same, found] at again
    cases again
    rw [spells.text_eq, ← all.text_eq, List.length_append]
    exact Nat.le_add_right _ _

theorem atHead?_eq_some_iff {input text : List Char} {spelling : Spelling} :
    (Spelling.atHead? input = some spelling ∧ text = spelling.text) ↔
      Longest spelling text input := by
  constructor
  · rintro ⟨found, rfl⟩
    have spells := Spelling.spells_of_atHead? found
    obtain ⟨rest, rfl⟩ := Spelling.atHead?_append found
    apply longest_append_iff.2
    refine ⟨spells, ?_⟩
    obtain ⟨longer, more, behind, rfl, all, ends⟩ := spells.extend rest
    -- What is found is also found when it is made longer, so it was not.
    have again := Spelling.atHead?_of_spells all ends
    rw [List.append_assoc, found] at again
    cases again
    have none : more = [] := List.append_right_eq_self.1 all.text_eq
    subst none
    exact ends
  · intro longest
    obtain ⟨rest, rfl⟩ := longest.2.1
    obtain ⟨spells, ends⟩ := longest_append_iff.1 longest
    exact ⟨Spelling.atHead?_of_spells spells ends, spells.text_eq⟩

end Tabletop.Notation
