import Backprop.Error

/-! What ends a run: a cause, and what was being done when it arose. -/

namespace Backprop

/-- What is wrong with a file of labelled images. -/
inductive DatasetError where
  | cannotOpen (path : String) (cause : FileError)
  | cannotRead (cause : FileError)
  | shortHeader
  | notImages (path : String) (magic : Nat)
  | notLabels (path : String) (magic : Nat)
  | truncated (path : String)
  | countMismatch (images labels : Nat)
  | empty
  | call (e : Error)
deriving DecidableEq, Repr

def DatasetError.message : DatasetError → String
  | cannotOpen path cause => s!"Failed to open {path}: {cause.message}"
  | cannotRead cause => cause.message
  | shortHeader => "failed to fill whole buffer"
  | notImages path magic => s!"{path} is not an IDX image file (magic {magic})"
  | notLabels path magic => s!"{path} is not an IDX label file (magic {magic})"
  | truncated path => s!"{path} is truncated: failed to fill whole buffer"
  | countMismatch images labels => s!"{images} images but {labels} labels"
  | empty => "dataset is empty"
  | call e => e.message

inductive RunError where
  | call (e : Error)
  | dataset (e : DatasetError)
  | text (message : String)
  | context (doing : String) (cause : RunError)
deriving DecidableEq, Repr

namespace RunError

/-- What was being done, from the outside in, and then the cause. -/
def message : RunError → String
  | call e => e.message
  | dataset e => e.message
  | text message => message
  | context doing cause => doing ++ ": " ++ cause.message

/-- Whether the computation itself went wrong. -/
def isFault : RunError → Bool
  | call e | dataset (.call e) => e.kind == .fault
  | dataset _ | text _ => false
  | context _ cause => cause.isFault

end RunError

end Backprop
