import Backprop.CommandLine.Command
import Backprop.Kernel.Manifest
import Backprop.Training.Trainer

/-! What a command does: its exit code, what it prints, and the files it writes. -/

namespace Backprop

/-- Files are written in order, and the first that cannot be ends the run as an error. -/
structure Execution where
  exit : Nat := 0
  output : String := ""
  complaint : String := ""
  writes : List (String × Bytes) := []
deriving DecidableEq

namespace Execution

def usage : String := "usage: train [options] | kernels [--kernels <manifest>]\n"

def textBytes (text : String) : Bytes := text.toUTF8.toList

def registry (read : FileReader) (manifest : String) : Except RunError Registry :=
  ((Registry.ofManifest read manifest ".metal").2).mapError fun e =>
    .context s!"loading kernel manifest {manifest}" (.call e)

def model (o : TrainOptions) : Network.Call Binary32 Classifier :=
  match o.model with
  | .convolutional => Classifier.convolutional
  | .perceptron => Classifier.perceptron ⟨28, 28, 1, 1⟩ [784, 128, 10]

def optimizer (o : TrainOptions) : Optimizer Binary32 :=
  match o.rule with
  | .adam => .adamAt o.learningRate
  | .gradientDescent => .gradientDescent o.learningRate

def prepare (o : TrainOptions) : Network.Call Binary32 Classifier := do
  let classifier ← model o
  Network.setOptimizer (optimizer o)
  Network.compile o.batch
  return classifier

def ofResult {ε σ β : Type} (f : ε → RunError) : EStateM.Result ε σ β → Except RunError (β × σ)
  | .ok b s => .ok (b, s)
  | .error e _ => .error (f e)

def restore (read : FileReader) (o : TrainOptions) (classifier : Classifier)
    (network : Network Binary32) : Except RunError (Network Binary32) :=
  match o.load with
  | none => .ok network
  | some path => do
    let stream := (read path).mapError (.unreadable "snapshot" path)
    let ((), network) ← ofResult (fun e => .context s!"loading snapshot {path}" (.call e))
      (Network.loadSnapshot stream classifier.parameters network)
    return network

def results (o : TrainOptions) (classifier : Classifier) (s : TrainingState) :
    Except RunError (List (String × Bytes)) := do
  let metrics := o.metrics.toList.map fun path => (path, textBytes (TrainingEvent.table s.events))
  let snapshots ← o.save.toList.mapM fun path => do
    let (bytes, _) ← ofResult (fun e => .context s!"saving snapshot {path}" (.call e))
      (Network.saveSnapshot classifier.parameters s.network)
    return (path, bytes)
  return metrics ++ snapshots

/-- Goes wrong where the images of a batch are more than a sequence takes. -/
def poolRoom (o : TrainOptions) (training : Dataset) : Except Error Unit :=
  requireRoom (o.batch * training.pixels) 4

/-- The end of a training whose feeds may have had nothing to give: an empty dataset is
what went wrong then, unless the training had no result at all. -/
def settle {β : Type} (starved : Bool) (outcome : Except RunError β) : Except RunError β :=
  match outcome with
  | .error e => if starved && !e.isFault then .error (.dataset .empty) else .error e
  | .ok b => if starved then .error (.dataset .empty) else .ok b

/-- Trains a classifier of digits; answers the files to write. -/
def train (read : FileReader) (o : TrainOptions) : Except RunError (List (String × Bytes)) := do
  let registry ← registry read o.kernels
  if o.device = .metal then throw (.text "the metal device is only available on macOS")
  let network : Network Binary32 := .new { device := .standard, registry }
    { validate := o.validate, seed := .ofNat o.seed, profile := o.profile }
  let (classifier, network) ← ofResult .call (prepare o network)
  let network ← restore read o classifier network
  let training ← (Dataset.loadTraining read o.data).mapError .dataset
  let test ← (Dataset.loadTest read o.data).mapError .dataset
  (poolRoom o training).mapError .call
  let trainer := Trainer.withEvaluation { steps := o.steps } o.evalEvery 10
  let outcome := ofResult id <| trainer.train classifier {
    network
    training := .cycle { dataset := training, size := o.batch }
    test := some (.cycle { dataset := test, size := o.batch }) }
  let (_, state) ← settle (training.samples = 0 ∨ test.samples = 0) outcome
  results o classifier state

def ofArguments (read : FileReader) (arguments : List String) : Execution :=
  match CommandLine.parse arguments with
  | .error e => { exit := 2, complaint := s!"error: {e.message}\n" ++ usage }
  | .ok .help => { output := usage }
  | .ok .version => { output := "0.1.0\n" }
  | .ok (.kernels manifest) =>
    match registry read manifest with
    | .ok r => { output := String.join (r.names.map (· ++ "\n")) }
    | .error e => { exit := 1, complaint := s!"Error: {e.message}\n" }
  | .ok (.train o) =>
    match train read o with
    | .ok writes => { writes }
    | .error e => { exit := if e.isFault then 101 else 1, complaint := s!"Error: {e.message}\n" }

def exitAfter (e : Execution) (written : Bool) : Nat := if written then e.exit else 1

end Execution

end Backprop
