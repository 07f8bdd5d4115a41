import Tabletop.Record
import Tabletop.Source

/-! Procedures that draw from a source and note their progress.

A procedure is a tree: at each draw it names a bound and branches on the answer, which
it is handed as the source gave it, in range or not. What it does on a source is given
by `run`. -/

set_option autoImplicit false

namespace Tabletop

inductive Rolling (α : Type) where
  | done (value : α)
  | draw (below : Nat) (next : Nat → Rolling α)
  | note (entry : Record) (next : Rolling α)

namespace Rolling

variable {α β σ : Type}

protected def bind : Rolling α → (α → Rolling β) → Rolling β
  | .done value, next => next value
  | .draw below branch, next => .draw below fun answer => (branch answer).bind next
  | .note entry rest, next => .note entry (rest.bind next)

instance : Monad Rolling where
  pure := .done
  bind := Rolling.bind

@[simp] theorem pure_eq_done (value : α) : (pure value : Rolling α) = .done value := rfl

@[simp] theorem done_bind (value : α) (next : α → Rolling β) :
    (.done value : Rolling α) >>= next = next value := rfl

@[simp] theorem draw_bind (below : Nat) (branch : Nat → Rolling α) (next : α → Rolling β) :
    .draw below branch >>= next = .draw below fun answer => branch answer >>= next := rfl

@[simp] theorem note_bind (entry : Record) (rest : Rolling α) (next : α → Rolling β) :
    .note entry rest >>= next = .note entry (rest >>= next) := rfl

instance : LawfulMonad Rolling := LawfulMonad.mk' _
  (fun tree => by
    change tree.bind (fun value => .done value) = tree
    induction tree with
    | done => rfl
    | draw below branch ih => exact congrArg _ (funext ih)
    | note entry rest ih => exact congrArg _ ih)
  (fun _ _ => rfl)
  (fun tree first second => by
    induction tree with
    | done => rfl
    | draw below branch ih => exact congrArg _ (funext ih)
    | note entry rest ih => exact congrArg _ ih)

def recordAll (entries : List Record) : Rolling Unit :=
  entries.foldr .note (.done ())

structure Run (σ α : Type) where
  value : α
  source : σ
  /-- The bounds asked of the source, one for each draw, in order. -/
  asked : List Nat
  log : List Record

def Run.draws (run : Run σ α) : Nat := run.asked.length

variable [Source σ]

/-- Runs a procedure behind draws and records already made, held latest first. -/
def runFrom : Rolling α → σ → List Nat → List Record → Run σ α
  | .done value, source, asked, log => ⟨value, source, asked.reverse, log.reverse⟩
  | .draw below next, source, asked, log =>
    let answer := Source.index below source
    (next answer.1).runFrom answer.2 (below :: asked) log
  | .note entry next, source, asked, log => next.runFrom source asked (entry :: log)

def run (tree : Rolling α) (source : σ) : Run σ α := tree.runFrom source [] []

theorem runFrom_eq (tree : Rolling α) (source : σ) (asked : List Nat) (log : List Record) :
    tree.runFrom source asked log = { tree.run source with
      asked := asked.reverse ++ (tree.run source).asked
      log := log.reverse ++ (tree.run source).log } := by
  induction tree generalizing source asked log with
  | done value => simp [run, runFrom]
  | draw below next ih =>
    simp only [run, runFrom]
    rw [ih, ih _ _ [below]]
    simp
  | note entry next ih =>
    simp only [run, runFrom]
    rw [ih, ih _ _ [entry]]
    simp

@[simp] theorem run_done (value : α) (source : σ) :
    (done value).run source = ⟨value, source, [], []⟩ := rfl

theorem run_draw (below : Nat) (next : Nat → Rolling α) (source : σ) :
    (draw below next).run source =
      let answer := Source.index below source
      let rest := (next answer.1).run answer.2
      { rest with asked := below :: rest.asked } := by
  rw [run, runFrom, runFrom_eq]
  rfl

theorem run_note (entry : Record) (next : Rolling α) (source : σ) :
    (note entry next).run source =
      { next.run source with log := entry :: (next.run source).log } := by
  rw [run, runFrom, runFrom_eq]
  rfl

theorem run_bind (tree : Rolling α) (next : α → Rolling β) (source : σ) :
    (tree >>= next).run source =
      let first := tree.run source
      let second := (next first.value).run first.source
      { second with asked := first.asked ++ second.asked, log := first.log ++ second.log } := by
  induction tree generalizing source with
  | done value => simp
  | draw below branch ih => simp [run_draw, ih]
  | note entry rest ih => simp [run_note, ih]

theorem run_map (change : α → β) (tree : Rolling α) (source : σ) :
    (change <$> tree).run source =
      let first := tree.run source
      { first with value := change first.value } := by
  simp [map_eq_pure_bind, run_bind]

end Rolling

end Tabletop
