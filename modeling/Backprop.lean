import Backprop.Backend.Basic
import Backprop.Backend.Words
import Backprop.Capacity
import Backprop.CommandLine.Command
import Backprop.CommandLine.Execution
import Backprop.Dataset.Batch
import Backprop.Dataset.Idx
import Backprop.Dataset.Queue
import Backprop.Device
import Backprop.Error
import Backprop.Extent
import Backprop.FileTree
import Backprop.Initializer
import Backprop.Kernel.Activation
import Backprop.Kernel.Argument
import Backprop.Kernel.Catalogue
import Backprop.Kernel.Classification
import Backprop.Kernel.Convolution
import Backprop.Kernel.Declaration
import Backprop.Kernel.Descent
import Backprop.Kernel.Elementwise
import Backprop.Kernel.Loop
import Backprop.Kernel.Manifest
import Backprop.Kernel.MatrixProduct
import Backprop.Kernel.Operands
import Backprop.Kernel.Pooling
import Backprop.Kernel.Programs
import Backprop.Kernel.Registry
import Backprop.Kernel.Tiling
import Backprop.Launch
import Backprop.Main
import Backprop.Model.Classifier
import Backprop.Model.GatedUnit
import Backprop.Model.Layer
import Backprop.Network.Basic
import Backprop.Network.Compile
import Backprop.Network.Run
import Backprop.Number.Binary32
import Backprop.Number.Cosine
import Backprop.Number.Decimal
import Backprop.Number.Decoded
import Backprop.Number.Exponential
import Backprop.Number.Fused
import Backprop.Number.HyperbolicTangent
import Backprop.Number.Logarithm
import Backprop.Number.Scalar
import Backprop.Operator.Basic
import Backprop.Operator.Emission
import Backprop.Optimizer
import Backprop.Pass
import Backprop.Proofs.Backend.Allocation
import Backprop.Proofs.Backend.Bytes
import Backprop.Proofs.Backend.Execution
import Backprop.Proofs.Backend.KernelCache
import Backprop.Proofs.Backend.Ledger
import Backprop.Proofs.Backend.Playing
import Backprop.Proofs.Backend.Run
import Backprop.Proofs.Backend.Safety
import Backprop.Proofs.Backend.Submission
import Backprop.Proofs.Backend.Transfer
import Backprop.Proofs.Call
import Backprop.Proofs.Dataset.Cycle
import Backprop.Proofs.Dataset.Idx
import Backprop.Proofs.Dataset.SharedQueue
import Backprop.Proofs.Device
import Backprop.Proofs.Initializer
import Backprop.Proofs.Kernel.ClassGradients
import Backprop.Proofs.Kernel.ConvolutionProducts
import Backprop.Proofs.Kernel.Declaration
import Backprop.Proofs.Kernel.Demands
import Backprop.Proofs.Kernel.Loop
import Backprop.Proofs.Kernel.Pooling
import Backprop.Proofs.Kernel.Programs
import Backprop.Proofs.Kernel.Rearrangement
import Backprop.Proofs.Kernel.Writes
import Backprop.Proofs.Model.GatedRecurrence
import Backprop.Proofs.Model.GatedUnit
import Backprop.Proofs.Network.BatchRows
import Backprop.Proofs.Network.Building
import Backprop.Proofs.Network.Compiled
import Backprop.Proofs.Network.Derivatives
import Backprop.Proofs.Network.Equations
import Backprop.Proofs.Network.FailedWrites
import Backprop.Proofs.Network.FirstDraws
import Backprop.Proofs.Network.FirstValues
import Backprop.Proofs.Network.ForwardPass
import Backprop.Proofs.Network.Lifecycle
import Backprop.Proofs.Network.Links
import Backprop.Proofs.Network.Meaning
import Backprop.Proofs.Network.Parts
import Backprop.Proofs.Network.Progress
import Backprop.Proofs.Network.ScratchSharing
import Backprop.Proofs.Network.SequenceWrites
import Backprop.Proofs.Network.Sized
import Backprop.Proofs.Network.Snapshots
import Backprop.Proofs.Network.Soundness
import Backprop.Proofs.Network.Stages
import Backprop.Proofs.Network.Timetable
import Backprop.Proofs.Network.Twins
import Backprop.Proofs.Number.Binary32
import Backprop.Proofs.Number.Exact
import Backprop.Proofs.Operator.ConvolutionGradients
import Backprop.Proofs.Operator.Demands
import Backprop.Proofs.Operator.Entries
import Backprop.Proofs.Operator.Lasting
import Backprop.Proofs.Operator.ProductGradients
import Backprop.Proofs.Operator.Split
import Backprop.Proofs.Snapshot
import Backprop.Proofs.Snapshot.Search
import Backprop.Proofs.Snapshot.WrongLength
import Backprop.Proofs.Training.Course
import Backprop.Proofs.Training.Evaluation
import Backprop.Proofs.Training.Inputs
import Backprop.Random.Generator
import Backprop.Random.Keystream
import Backprop.RunError
import Backprop.Shape
import Backprop.Snapshot
import Backprop.Tensor.Basic
import Backprop.Tensor.Kind
import Backprop.Text.Blank
import Backprop.Text.CodeRange
import Backprop.Text.Extender
import Backprop.Text.Invisible
import Backprop.Text.Quoted
import Backprop.Training.Progress
import Backprop.Training.Timing
import Backprop.Training.Trainer
