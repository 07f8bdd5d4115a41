import Tabletop.Source

/-! Runs of calls to a source.

A run is given by the bounds asked for, one after the other. The answer to a call depends on
the calls before it only through what they leave of the source. -/

set_option autoImplicit false

namespace Tabletop

structure Call where
  below : Nat
  answer : Nat
  deriving DecidableEq

def Call.place (call : Call) : Nat := call.answer % call.below

/-- What a source answers when it is asked for places below these bounds, one after the other. -/
def Source.calls {σ : Type} [Source σ] : σ → List Nat → List Call
  | _, [] => []
  | source, below :: rest =>
    let answer := Source.index below source
    ⟨below, answer.1⟩ :: calls answer.2 rest

namespace Source

variable {σ : Type} [Source σ]

def left (source : σ) (bounds : List Nat) : σ :=
  bounds.foldl (fun source below => (index below source).2) source

theorem map_below_calls (source : σ) (bounds : List Nat) :
    (calls source bounds).map Call.below = bounds := by
  induction bounds generalizing source with
  | nil => rfl
  | cons below rest ih => exact congrArg (below :: ·) (ih _)

theorem getElem?_calls (source : σ) (bounds : List Nat) (number : Nat) :
    (calls source bounds)[number]? = bounds[number]?.map fun below =>
      ⟨below, (index below (left source (bounds.take number))).1⟩ := by
  induction bounds generalizing source number with
  | nil => rfl
  | cons below rest ih =>
    cases number with
    | zero => rfl
    | succ number => exact ih _ number

end Source

end Tabletop
