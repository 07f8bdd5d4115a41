import Tabletop.Notation.Spelling

/-! Splitting a text into the tokens it holds and the characters between them.

At each position the operation spelled there is taken; where there is none, one
character is set aside. So each character of the text is part of one lexeme or of
the residue, unless a number out of range ends the scan. -/

set_option autoImplicit false

namespace Tabletop.Notation

structure Lexeme where
  token : Token
  position : Nat
  text : String
  deriving DecidableEq, Repr

structure Scan where
  lexemes : List Lexeme
  /-- The characters of no token, with their positions. -/
  residue : List (Nat × Char)
  /-- The token with a number out of range that ended the scan, if there was one. -/
  stopped : Option (Nat × NumeralFault)
  deriving DecidableEq, Repr

namespace Scan

def withLexeme (lexeme : Lexeme) (scan : Scan) : Scan :=
  { scan with lexemes := lexeme :: scan.lexemes }

def withResidue (position : Nat) (char : Char) (scan : Scan) : Scan :=
  { scan with residue := (position, char) :: scan.residue }

/-- Scans a text from a position, of which the first `taken` characters belong to the
lexeme before. -/
def scanFrom : (position taken : Nat) → List Char → Scan
  | _, _, [] => ⟨[], [], none⟩
  | position, taken + 1, _ :: rest => scanFrom (position + 1) taken rest
  | position, 0, char :: rest =>
    match Spelling.atHead? (char :: rest) with
    | none => (scanFrom (position + 1) 0 rest).withResidue position char
    | some spelling =>
      match spelling.token with
      | .ok token =>
        (scanFrom (position + 1) (spelling.text.length - 1) rest).withLexeme
          ⟨token, position, String.ofList spelling.text⟩
      | .error fault => ⟨[], [], some (position, fault)⟩

theorem scanFrom_append (position : Nat) (taken rest : List Char) :
    scanFrom position taken.length (taken ++ rest) = scanFrom (position + taken.length) 0 rest := by
  induction taken generalizing position with
  | nil => rfl
  | cons char taken ih =>
    simp only [List.length_cons, List.cons_append, scanFrom, ih]
    congr 1
    omega

theorem scanFrom_token {position : Nat} {rest : List Char} {spelling : Spelling} {token : Token}
    (found : Spelling.atHead? (spelling.text ++ rest) = some spelling)
    (read : spelling.token = .ok token) :
    scanFrom position 0 (spelling.text ++ rest) =
      (scanFrom (position + spelling.text.length) 0 rest).withLexeme
        ⟨token, position, String.ofList spelling.text⟩ := by
  obtain ⟨char, others, same⟩ := List.exists_cons_of_ne_nil (Operation.chars_ne_nil id spelling)
  change spelling.text = char :: others at same
  rw [same, List.cons_append] at found ⊢
  simp only [scanFrom, found, read]
  simp only [same, List.length_cons, Nat.add_sub_cancel, scanFrom_append]
  congr 2
  omega

def ofText (text : List Char) : Scan := scanFrom 0 0 text

/-- The residue with the blanks at its ends removed, and the position of its first
character; none if the residue is blank. -/
def remainder? (scan : Scan) : Option (Nat × String) :=
  (scan.residue.find? fun entry => !isBlank entry.2).map fun first =>
    (first.1, String.ofList (trim (scan.residue.map Prod.snd)))

end Scan

end Tabletop.Notation
