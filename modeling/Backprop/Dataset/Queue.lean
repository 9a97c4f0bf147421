import Backprop.Dataset.Batch

/-! A bounded pool of batches between a producer and a consumer. Empty batches go to the
producer and come back full; a closed queue takes nothing more, and what is full can
still be taken. -/

namespace Backprop

structure BatchQueue where
  empty : List Batch
  full : List Batch := []
  closed : Bool := false
deriving DecidableEq, Repr

namespace BatchQueue

/-- Bytes that a batch takes in a queue, apart from what it holds. -/
def entryBytes : Nat := 48

def new (capacity inputs labels : Nat) : Except Error BatchQueue := do
  requireRoom (max capacity 1) entryBytes
  return { empty := List.replicate (max capacity 1) (← Batch.zeros inputs labels) }

/-- What a taker sees. -/
inductive Taken where
  | batch (b : Batch)
  | ended
  /-- Nothing yet: the taker waits. -/
  | waits
deriving DecidableEq, Repr

def takeEmpty (q : BatchQueue) : Taken × BatchQueue :=
  if q.closed then (.ended, q)
  else match q.empty with
    | b :: rest => (.batch b, { q with empty := rest })
    | [] => (.waits, q)

def takeFull (q : BatchQueue) : Taken × BatchQueue :=
  match q.full with
  | b :: rest => (.batch b, { q with full := rest })
  | [] => (if q.closed then .ended else .waits, q)

def putFull (q : BatchQueue) (b : Batch) : BatchQueue :=
  if q.closed then q else { q with full := q.full ++ [b] }

def putEmpty (q : BatchQueue) (b : Batch) : BatchQueue :=
  if q.closed then q else { q with empty := q.empty ++ [b] }

def close (q : BatchQueue) : BatchQueue := { q with closed := true }

def exchange (q : BatchQueue) : List Batch → List Batch × BatchQueue
  | [] => ([], q.close)
  | b :: rest =>
    match q.takeEmpty with
    | (.batch _, q) =>
      match (q.putFull b).takeFull with
      | (.batch taken, q) =>
        let (later, q) := exchange (q.putEmpty taken) rest
        (taken :: later, q)
      | (_, q) => ([], q)
    | (_, q) => ([], q)

end BatchQueue

end Backprop
