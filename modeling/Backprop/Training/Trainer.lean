import Backprop.Dataset.Queue
import Backprop.Model.Classifier
import Backprop.Network.Run
import Backprop.Training.Progress

/-! The training loop: a batch is written, the passes are run, and loss and accuracy are
read back. -/

namespace Backprop

/-- Where batches come from: a queue that is already filled, or a dataset that goes round. -/
inductive Feed where
  | queue (q : BatchQueue)
  | cycle (c : DatasetCycle)

namespace Feed

/-- The next batch, which is handed back once it has been used. -/
def next : Feed → Option (Batch × Feed)
  | queue q =>
    match q.takeFull with
    | (.batch b, q) => some (b, queue (q.putEmpty b))
    | _ => none
  | cycle c =>
    match c.next with
    | .ok (b, c) => some (b, cycle c)
    | .error _ => none

end Feed

structure Trainer where
  steps : Nat
  /-- Steps between evaluations; zero for none. -/
  evalEvery : Nat := 0
  evalBatches : Nat := 1

structure TrainingState where
  network : Network Binary32
  training : Feed
  test : Option Feed
  events : List TrainingEvent := []

namespace Trainer

abbrev Call (β : Type) := EStateM RunError TrainingState β

/-- Training with an evaluation over at least one batch after every so many steps. -/
def withEvaluation (t : Trainer) (every batches : Nat) : Trainer :=
  { t with evalEvery := every, evalBatches := max batches 1 }

/-- A call on the network that is trained. -/
def onNetwork {β : Type} (call : Network.Call Binary32 β) : Call β := fun s =>
  match call s.network with
  | .ok b network => .ok b { s with network }
  | .error e network => .error (.call e) { s with network }

/-- Says what is being done, should it fail. -/
def doing {β : Type} (text : String) (call : Call β) : Call β := fun s =>
  match call s with
  | .ok b s => .ok b s
  | .error e s => .error (.context text e) s

def report (event : TrainingEvent) : Call Unit :=
  modify fun s => { s with events := s.events ++ [event] }

/-- The single value of a loss or a metric. -/
def readValue (id : TensorId) : Call Binary32 := do
  match (← onNetwork (Network.readTensor id 0))[0]? with
  | some x => return x
  | none => throw (.call (.fault .outOfBounds))

/-- Runs one batch, and answers its loss and accuracy. -/
def runBatch (model : Classifier) (batch : Batch) (learn : Bool) : Call (Binary32 × Binary32) := do
  doing "writing batch inputs" (onNetwork (Network.writeTensor model.input 0 batch.inputs))
  doing "writing batch labels" (onNetwork (Network.writeTensor model.labels 0 batch.labels))
  onNetwork Network.forward
  let loss ← readValue model.loss
  let accuracy ← readValue model.accuracy
  if learn then
    onNetwork Network.backward
    onNetwork Network.batchDone
  return (loss, accuracy)

def nextTraining : Call (Option Batch) := do
  let s ← get
  match s.training.next with
  | none => return none
  | some (batch, training) =>
    set { s with training }
    return some batch

def nextTest : Call (Option Batch) := do
  let s ← get
  match s.test.bind (·.next) with
  | none => return none
  | some (batch, test) =>
    set { s with test := some test }
    return some batch

/-- Sums of loss and accuracy over at most `count` test batches, and how many there were. -/
def sumTests (model : Classifier) :
    (count : Nat) → Binary32 → Binary32 → Nat → Call (Binary32 × Binary32 × Nat)
  | 0, loss, accuracy, seen => return (loss, accuracy, seen)
  | count + 1, loss, accuracy, seen => do
    match ← nextTest with
    | none => return (loss, accuracy, seen)
    | some batch =>
      let (l, a) ← runBatch model batch false
      sumTests model count (loss + l) (accuracy + a) (seen + 1)

/-- Mean loss and accuracy over test batches. -/
def evaluate (t : Trainer) (model : Classifier) (step : Nat) : Call Metrics := do
  let (loss, accuracy, seen) ← sumTests model t.evalBatches 0 0 0
  let n := Binary32.ofInt (max seen 1)
  return { loss := loss / n, accuracy := accuracy / n, step }

/-- The steps from `step` on, `count` of them, as long as there are batches. -/
def trainFrom (t : Trainer) (model : Classifier) : (count step : Nat) → Call (List Metrics)
  | 0, _ => return []
  | count + 1, step => do
    match ← nextTraining with
    | none =>
      report (.ranOut step)
      return []
    | some batch =>
      let (loss, accuracy) ← doing s!"training step {step + 1}" (runBatch model batch true)
      let m : Metrics := { loss, accuracy, step }
      report (.step step m)
      if (← get).test.isSome ∧ t.evalEvery ≠ 0 ∧ (step + 1) % t.evalEvery = 0 then
        report (.evaluation step (← t.evaluate model step))
      return m :: (← trainFrom t model count (step + 1))

/-- Bytes that the metrics of a step take. -/
def metricsBytes : Nat := 16

/-- Trains a classifier; answers the metrics of each step, which have to be few enough
to be kept. -/
def train (t : Trainer) (model : Classifier) : Call (List Metrics) := do
  match requireRoom t.steps metricsBytes with
  | .ok () => t.trainFrom model t.steps 0
  | .error e => throw (.call e)

end Trainer

end Backprop
