import Tabletop.Notation.Operation

/-! Finding an operation at the head of a text.

A numeral is a run of digits as long as it goes, and a list goes on as long as a
comma with a digit behind it follows. So what is found is the longest head of the
text that spells an operation. -/

set_option autoImplicit false

namespace Tabletop.Notation

/-- The runs of digits at the head of a text, with one comma between two of them. -/
def digitRuns : List Char → List (List Char)
  | [] => []
  | char :: ',' :: rest => if char.isDigit then [char] :: digitRuns rest else []
  | char :: rest =>
    if char.isDigit then
      match digitRuns rest with
      | [] => [[char]]
      | run :: runs => (char :: run) :: runs
    else []

theorem digitRuns_append (text : List Char) :
    ∃ rest, text = [','].intercalate (digitRuns text) ++ rest := by
  fun_induction digitRuns text with
  | case1 => exact ⟨[], rfl⟩
  | case2 char rest digit ih =>
    obtain ⟨tail, same⟩ := ih
    cases runs : digitRuns rest with
    | nil => exact ⟨',' :: rest, rfl⟩
    | cons run more =>
      rw [runs] at same
      exact ⟨tail, by simpa [List.intercalate] using same⟩
  | case3 char rest => exact ⟨char :: ',' :: rest, rfl⟩
  | case4 char rest => exact ⟨rest, rfl⟩
  | case5 char rest _ digit run runs more ih =>
    obtain ⟨tail, same⟩ := ih
    rw [more] at same
    refine ⟨tail, ?_⟩
    cases runs <;> simpa [List.intercalate] using same
  | case6 char rest => exact ⟨char :: rest, rfl⟩

namespace Spelling

def withCount (operation : List Char → Spelling) (text : List Char) : Option Spelling :=
  match text.takeWhile Char.isDigit with
  | [] => none
  | digits => some (operation digits)

def withValues (operation : List (List Char) → Spelling) (text : List Char) : Option Spelling :=
  match digitRuns text with
  | [] => none
  | values => some (operation values)

def dice? (text : List Char) : Option Spelling :=
  match text.takeWhile Char.isDigit, text.dropWhile Char.isDigit with
  | [], _ => none
  | count, 'd' :: rest => withCount (.dice count) rest
  | _, _ => none

def atHead? : List Char → Option Spelling
  | 'K' :: 'h' :: rest => withCount (.keep .high) rest
  | 'K' :: 'l' :: rest => withCount (.keep .low) rest
  | 'K' :: 'n' :: rest => withValues .keepValues rest
  | 'D' :: 'h' :: rest => withCount (.drop .high) rest
  | 'D' :: 'l' :: rest => withCount (.drop .low) rest
  | 'D' :: 'n' :: rest => withValues .dropValues rest
  | 'X' :: rest => withValues .explode rest
  | text => dice? text

def text (spelling : Spelling) : List Char := spelling.chars id

theorem withCount_append {operation : List Char → Spelling} {input : List Char}
    {spelling : Spelling} (found : withCount operation input = some spelling) :
    ∃ digits rest, spelling = operation digits ∧ input = digits ++ rest := by
  rw [withCount] at found
  split at found
  · cases found
  · cases found
    exact ⟨_, _, rfl, List.takeWhile_append_dropWhile.symm⟩

theorem withValues_append {operation : List (List Char) → Spelling} {input : List Char}
    {spelling : Spelling} (found : withValues operation input = some spelling) :
    ∃ values rest, spelling = operation values ∧ input = [','].intercalate values ++ rest := by
  rw [withValues] at found
  split at found
  · cases found
  · cases found
    obtain ⟨rest, same⟩ := digitRuns_append input
    exact ⟨_, rest, rfl, same⟩

theorem dice?_append {input : List Char} {spelling : Spelling} (found : dice? input = some spelling) :
    ∃ rest, input = spelling.text ++ rest := by
  rw [dice?] at found
  split at found
  · cases found
  · next rest behind _ =>
    obtain ⟨faces, rest, rfl, same⟩ := withCount_append found
    refine ⟨rest, ?_⟩
    conv => left; rw [← List.takeWhile_append_dropWhile (p := Char.isDigit) (l := input), behind, same]
    simp [text, Operation.chars]
  · cases found

theorem atHead?_append {input : List Char} {spelling : Spelling}
    (found : atHead? input = some spelling) : ∃ rest, input = spelling.text ++ rest := by
  unfold atHead? at found
  split at found
  case h_8 => exact dice?_append found
  all_goals
    first
    | obtain ⟨_, rest, rfl, same⟩ := withCount_append found
    | obtain ⟨_, rest, rfl, same⟩ := withValues_append found
    exact ⟨rest, by rw [same]; simp [text, Operation.chars, Side.letter]⟩

/-- The token of a spelling. Its counts must be counts, and its values must be values. -/
def token (spelling : Spelling) : Except NumeralFault Token :=
  spelling.read (Numeral.magnitude maxCount .tooLarge)
    (Numeral.magnitude maxValue.toNat .tooLarge)

end Spelling

end Tabletop.Notation
