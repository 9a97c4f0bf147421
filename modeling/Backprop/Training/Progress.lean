import Backprop.Number.Scalar

/-! What a training run reports, as events and as lines of text. -/

namespace Backprop

structure Metrics where
  loss : Binary32
  accuracy : Binary32
  step : Nat
deriving DecidableEq, Repr

inductive TrainingEvent where
  | step (n : Nat) (m : Metrics)
  | evaluation (n : Nat) (m : Metrics)
  | ranOut (steps : Nat)
deriving DecidableEq, Repr

namespace Metrics

def percent (x : Binary32) : String := (x * ⟨0x42c80000⟩).toFixed 2

/-- Loss and accuracy for a reader. -/
def text (m : Metrics) : String := s!"loss={m.loss.toFixed 4}, accuracy={percent m.accuracy}%"

/-- A row of a table of metrics. -/
def row (kind : String) (step : Nat) (m : Metrics) : String :=
  s!"{step},{kind},{m.loss.toFixed 6},{m.accuracy.toFixed 4}"

end Metrics

namespace TrainingEvent

/-- The line for an event; of the steps only every `every`-th has one. -/
def logLine? (every : Nat) : TrainingEvent → Option String
  | step n m =>
    if every ≠ 0 ∧ (n + 1) % every = 0 then some s!"step {n + 1}: {m.text}" else none
  | evaluation n m => some s!"eval after step {n + 1}: {m.text}"
  | ranOut steps => some s!"training data ran out after {steps} steps"

def row? : TrainingEvent → Option String
  | step n m => some (m.row "train" n)
  | evaluation n m => some (m.row "eval" n)
  | ranOut _ => none

/-- A table of the metrics, with a heading and no line feed at the end. -/
def table (events : List TrainingEvent) : String :=
  "\n".intercalate ("step,kind,loss,accuracy" :: events.filterMap row?)

end TrainingEvent

end Backprop
