import Tabletop.Proofs.Notation.Grammar
import Tabletop.Proofs.Text.Chunks

/-! Texts that are joined by blanks.

No pattern holds a blank, so no match reaches over one. Two texts with blanks
between them are split each on its own, the second one further on, unless a number
out of range ends the scan of the first. -/

set_option autoImplicit false

namespace Tabletop

theorem isBlank_of_isDigit {char : Char} (digit : char.isDigit = true) : isBlank char = false := by
  rw [← Bool.not_eq_true]
  intro blank
  rw [not_isDigit_of_isBlank blank] at digit
  cases digit

namespace Notation

/-- The text holds no blank. -/
def Visible (text : List Char) : Prop := ∀ char ∈ text, isBlank char = false

theorem visible_append {first second : List Char} :
    Visible (first ++ second) ↔ Visible first ∧ Visible second :=
  List.forall_mem_append

theorem visible_cons {char : Char} {text : List Char} :
    Visible (char :: text) ↔ isBlank char = false ∧ Visible text :=
  List.forall_mem_cons

theorem visible_of_digits {digits : List Char} (run : Digits digits) : Visible digits := by
  intro char member
  exact isBlank_of_isDigit (run.2 char member)

theorem DigitList.visible {runs : List (List Char)} {text : List Char}
    (list : DigitList runs text) : Visible text := by
  induction list with
  | single run => exact visible_of_digits run
  | cons run _ ih => exact visible_append.2 ⟨visible_of_digits run, visible_cons.2 ⟨rfl, ih⟩⟩

theorem Spells.visible {spelling : Spelling} {text : List Char} (spells : Spells spelling text) :
    Visible text := by
  cases spells with
  | dice count faces =>
    exact visible_append.2 ⟨visible_of_digits count, visible_cons.2 ⟨rfl, visible_of_digits faces⟩⟩
  | @keep side _ count | @drop side _ count =>
    have letter : isBlank side.letter = false := by cases side <;> rfl
    exact visible_cons.2 ⟨rfl, visible_cons.2 ⟨letter, visible_of_digits count⟩⟩
  | keepValues list | dropValues list =>
    exact visible_cons.2 ⟨rfl, visible_cons.2 ⟨rfl, list.visible⟩⟩
  | explode list => exact visible_cons.2 ⟨rfl, list.visible⟩

section
variable {blank : Char} {spelling : Spelling} {text input rest : List Char}

theorem Spells.prefix_iff (spells : Spells spelling text) (space : isBlank blank = true) :
    text <+: input ++ blank :: rest ↔ text <+: input := by
  constructor
  · intro head
    rcases List.prefix_or_prefix_of_prefix head (List.prefix_append _ _) with within | beyond
    · exact within
    · -- A longer match would hold the blank.
      obtain ⟨more, rfl⟩ := beyond
      rw [List.prefix_append_right_inj] at head
      cases more with
      | nil => simp
      | cons char more =>
        obtain ⟨rfl, _⟩ := List.cons_prefix_cons.1 head
        rw [(visible_cons.1 (visible_append.1 spells.visible).2).1] at space
        cases space
  · intro head
    exact head.trans (List.prefix_append _ _)

theorem longest_before_blank_iff (space : isBlank blank = true) :
    Longest spelling text (input ++ blank :: rest) ↔ Longest spelling text input := by
  constructor
  · rintro ⟨spells, head, longest⟩
    refine ⟨spells, (spells.prefix_iff space).1 head, ?_⟩
    intro other longer another within
    exact longest other longer another ((another.prefix_iff space).2 within)
  · rintro ⟨spells, head, longest⟩
    refine ⟨spells, (spells.prefix_iff space).2 head, ?_⟩
    intro other longer another within
    exact longest other longer another ((another.prefix_iff space).1 within)

end

namespace Part

def moved (distance : Nat) : Part → Part
  | .spelled position spelling text => .spelled (distance + position) spelling text
  | .loose position char => .loose (distance + position) char

end Part

namespace Split

variable {position : Nat} {text : List Char} {parts : List Part}

theorem before_blank {blank : Char} {rest : List Char} {more : List Part}
    (split : Split position text parts) (space : isBlank blank = true)
    (behind : Split (position + text.length) (blank :: rest) more) :
    Split position (text ++ blank :: rest) (parts ++ more) := by
  induction split with
  | done => exact behind
  | spelled longest same _ ih =>
    subst same
    refine .spelled ((longest_before_blank_iff space).2 longest) (List.append_assoc _ _ _) (ih ?_)
    rwa [Nat.add_assoc, ← List.length_append]
  | loose noMatch _ ih =>
    refine .loose ?_ (ih ?_)
    · intro spelling text spells head
      exact noMatch spelling text spells ((spells.prefix_iff space).1 head)
    · rwa [List.length_cons, Nat.add_comm _ 1, ← Nat.add_assoc] at behind

theorem behind_gap {gap : List Char} (blank : Blank gap)
    (split : Split (position + gap.length) text parts) :
    Split position (gap ++ text) ((gap.zipIdx position).map (fun entry => .loose entry.2 entry.1) ++ parts) := by
  induction gap generalizing position with
  | nil => exact split
  | cons char gap ih =>
    obtain ⟨first, others⟩ := Blank.cons_iff.1 blank
    refine .loose (fun _ _ => noMatch_of_blank first) (ih others ?_)
    rwa [List.length_cons, Nat.add_comm _ 1, ← Nat.add_assoc] at split

theorem moved (distance : Nat) (split : Split position text parts) :
    Split (distance + position) text (parts.map (Part.moved distance)) := by
  induction split with
  | done => exact .done
  | spelled longest same _ ih => exact .spelled longest same (by rwa [Nat.add_assoc])
  | loose noMatch _ ih => exact .loose noMatch ih

end Split

def Lexeme.moved (distance : Nat) (lexeme : Lexeme) : Lexeme :=
  { lexeme with position := distance + lexeme.position }

namespace Scan

def moved (distance : Nat) (scan : Scan) : Scan where
  lexemes := scan.lexemes.map (Lexeme.moved distance)
  residue := scan.residue.map fun entry => (distance + entry.1, entry.2)
  stopped := scan.stopped.map fun entry => (distance + entry.1, entry.2)

/-- One scan and then another, unless the first is ended early. -/
def followedBy (first second : Scan) : Scan :=
  if first.stopped.isSome then first
  else ⟨first.lexemes ++ second.lexemes, first.residue ++ second.residue, second.stopped⟩

theorem followedBy_of_stopped {first : Scan} {stop : Nat × NumeralFault}
    (stopped : first.stopped = some stop) (second : Scan) : first.followedBy second = first := by
  rw [followedBy, stopped]
  rfl

theorem followedBy_of_scanned {first : Scan} (scanned : first.stopped = none) (second : Scan) :
    first.followedBy second =
      ⟨first.lexemes ++ second.lexemes, first.residue ++ second.residue, second.stopped⟩ := by
  rw [followedBy, scanned]
  rfl

def ofGap (position : Nat) (gap : List Char) : Scan :=
  ⟨[], (gap.zipIdx position).map Prod.swap, none⟩

theorem residue_ofGap (position : Nat) (gap : List Char) :
    (ofGap position gap).residue.map Prod.snd = gap := by
  simp [ofGap, Function.comp_def]

theorem isBlank_of_mem_ofGap {position : Nat} {gap : List Char} (blank : Blank gap) :
    ∀ entry ∈ (ofGap position gap).residue, isBlank entry.2 = true := by
  intro entry member
  apply blank
  rw [← residue_ofGap position gap]
  exact List.mem_map_of_mem member

theorem ofParts_append (first second : List Part) :
    ofParts (first ++ second) = (ofParts first).followedBy (ofParts second) := by
  induction first with
  | nil => rfl
  | cons part first ih =>
    cases part with
    | spelled position spelling text =>
      by_cases fits : spelling.decimals.Fits
      · rw [List.cons_append, ofParts_spelled fits, ofParts_spelled fits, ih]
        unfold followedBy withLexeme
        split <;> rfl
      · rw [List.cons_append, ofParts_stopped fits, ofParts_stopped fits]
        rfl
    | loose position char =>
      rw [List.cons_append, ofParts_loose, ofParts_loose, ih]
      unfold followedBy withResidue
      split <;> rfl

theorem ofParts_gap (position : Nat) (gap : List Char) :
    ofParts ((gap.zipIdx position).map fun entry => .loose entry.2 entry.1) = ofGap position gap := by
  induction gap generalizing position with
  | nil => rfl
  | cons char gap ih =>
    rw [List.zipIdx_cons, List.map_cons, ofParts_loose, ih]
    rfl

theorem ofParts_moved (distance : Nat) (parts : List Part) :
    ofParts (parts.map (Part.moved distance)) = (ofParts parts).moved distance := by
  induction parts with
  | nil => rfl
  | cons part parts ih =>
    cases part with
    | spelled position spelling text =>
      by_cases fits : spelling.decimals.Fits
      · rw [List.map_cons, Part.moved, ofParts_spelled fits, ofParts_spelled fits, ih]
        rfl
      · rw [List.map_cons, Part.moved, ofParts_stopped fits, ofParts_stopped fits]
        rfl
    | loose position char =>
      rw [List.map_cons, Part.moved, ofParts_loose, ofParts_loose, ih]
      rfl

theorem followedBy_nothing (scan : Scan) : scan.followedBy ⟨[], [], none⟩ = scan := by
  cases stopped : scan.stopped with
  | some stop => exact followedBy_of_stopped stopped _
  | none => rw [followedBy_of_scanned stopped, List.append_nil, List.append_nil, ← stopped]

theorem scanFrom_moved (distance position : Nat) (text : List Char) :
    scanFrom (distance + position) 0 text = (scanFrom position 0 text).moved distance := by
  obtain ⟨parts, split⟩ := Split.exists position text
  rw [scanFrom_of_split split, scanFrom_of_split (split.moved distance), ofParts_moved]

theorem scanFrom_eq_moved (position : Nat) (text : List Char) :
    scanFrom position 0 text = (ofText text).moved position :=
  scanFrom_moved position 0 text

theorem scanFrom_gap (position : Nat) {gap : List Char} (blank : Blank gap) (text : List Char) :
    scanFrom position 0 (gap ++ text) =
      (ofGap position gap).followedBy (scanFrom (position + gap.length) 0 text) := by
  obtain ⟨parts, split⟩ := Split.exists (position + gap.length) text
  rw [scanFrom_of_split split, scanFrom_of_split (split.behind_gap blank), ofParts_append,
    ofParts_gap]

theorem scanFrom_of_blank (position : Nat) {gap : List Char} (blank : Blank gap) :
    scanFrom position 0 gap = ofGap position gap := by
  have alone := scanFrom_gap position blank []
  rwa [List.append_nil, scanFrom, followedBy_nothing] at alone

/-- A text is scanned on its own, whatever a blank parts from it. -/
theorem scanFrom_parted {position : Nat} {rest : List Char} (parted : Parted isBlank rest)
    (text : List Char) :
    scanFrom position 0 (text ++ rest) =
      (scanFrom position 0 text).followedBy (scanFrom (position + text.length) 0 rest) := by
  cases rest with
  | nil => rw [List.append_nil, scanFrom, followedBy_nothing]
  | cons char rest =>
    obtain ⟨before, split⟩ := Split.exists position text
    obtain ⟨behind, other⟩ := Split.exists (position + text.length) (char :: rest)
    rw [scanFrom_of_split split, scanFrom_of_split other,
      scanFrom_of_split (split.before_blank (parted char rfl) other), ofParts_append]

theorem ofText_joined (first second : List Char) {gap : List Char} (blank : Blank gap)
    (some_blank : gap ≠ []) :
    ofText (first ++ (gap ++ second)) =
      (ofText first).followedBy ((ofGap first.length gap).followedBy
        ((ofText second).moved (first.length + gap.length))) := by
  have parted : Parted isBlank (gap ++ second) := by
    obtain ⟨char, others, rfl⟩ := List.exists_cons_of_ne_nil some_blank
    intro entry shown
    cases shown
    exact (Blank.cons_iff.1 blank).1
  rw [ofText, scanFrom_parted parted, Nat.zero_add, scanFrom_gap _ blank, scanFrom_eq_moved _ second]
  rfl

section
variable {first gap second : List Char}

theorem ofText_joined_of_stopped {stop : Nat × NumeralFault} (blank : Blank gap)
    (some_blank : gap ≠ []) (stopped : (ofText first).stopped = some stop) :
    ofText (first ++ (gap ++ second)) = ofText first := by
  rw [ofText_joined first second blank some_blank, followedBy_of_stopped stopped]

theorem ofText_joined_of_scanned (blank : Blank gap) (some_blank : gap ≠ [])
    (scanned : (ofText first).stopped = none) :
    let behind := (ofText second).moved (first.length + gap.length)
    ofText (first ++ (gap ++ second)) =
      ⟨(ofText first).lexemes ++ behind.lexemes,
        (ofText first).residue ++ ((ofGap first.length gap).residue ++ behind.residue),
        behind.stopped⟩ := by
  rw [ofText_joined first second blank some_blank, followedBy_of_scanned scanned]
  rfl

theorem remainder?_moved (distance : Nat) (scan : Scan) :
    (scan.moved distance).remainder? =
      scan.remainder?.map fun found => (distance + found.1, found.2) := by
  simp [remainder?, moved, List.find?_map, Function.comp_def]

theorem remainder?_behind_blanks {lexemes : List Lexeme} {blanks : List (Nat × Char)} {scan : Scan}
    (blank : ∀ entry ∈ blanks, isBlank entry.2 = true) :
    Scan.remainder? ⟨lexemes, blanks ++ scan.residue, scan.stopped⟩ = scan.remainder? := by
  have none : blanks.find? (fun entry => !isBlank entry.2) = none := by simpa using blank
  have leading : Blank (blanks.map Prod.snd) := List.forall_mem_map.2 blank
  simp only [remainder?, List.find?_append, none, Option.none_or, List.map_append,
    trim_append leading]

theorem remainder?_before_blanks {lexemes : List Lexeme} {blanks : List (Nat × Char)} {scan : Scan}
    (blank : ∀ entry ∈ blanks, isBlank entry.2 = true) :
    Scan.remainder? ⟨lexemes, scan.residue ++ blanks, scan.stopped⟩ = scan.remainder? := by
  have none : blanks.find? (fun entry => !isBlank entry.2) = none := by simpa using blank
  have trailing : Blank (blanks.map Prod.snd) := List.forall_mem_map.2 blank
  simp only [remainder?, List.find?_append, none, Option.or_none, List.map_append,
    trim_append_blank trailing]

theorem remainder?_joined (second : List Char) (blank : Blank gap) (some_blank : gap ≠ [])
    (scanned : (ofText first).stopped = none) (clean : (ofText first).remainder? = none) :
    (ofText (first ++ (gap ++ second))).remainder? =
      (ofText second).remainder?.map fun found => (first.length + gap.length + found.1, found.2) := by
  rw [ofText_joined_of_scanned blank some_blank scanned, ← remainder?_moved, ← List.append_assoc]
  apply remainder?_behind_blanks
  exact List.forall_mem_append.2 ⟨remainder?_eq_none_iff.1 clean, isBlank_of_mem_ofGap blank⟩

end

end Scan

end Notation

end Tabletop
