import Backprop.Backend.Words
import Backprop.Capacity

/-! Stored parameters: for each a line with its name, its words, and a line feed. A
record has no length, so a reader has to know how many words it wants. -/

namespace Backprop.Snapshot

def lineFeed : UInt8 := 10

/-- Names that are one line. -/
def isName (name : String) : Bool := !name.isEmpty && !name.toList.contains '\n'

def nameBytes (name : String) : Bytes := name.toUTF8.toList

/-- The line that starts the record of a name. -/
def heading (name : String) : Bytes := nameBytes name ++ [lineFeed]

def record (name : String) (values : List Binary32) : Except Error Bytes :=
  if isName name then .ok (heading name ++ Binary32.bytesOfList values ++ [lineFeed])
  else .error (.badRecordName name)

def save (records : List (String × List Binary32)) : Except Error Bytes := do
  return (← records.mapM fun (name, values) => record name values).flatten

/-- What a place where the heading was found tells. -/
inductive Candidate where
  | found (values : List Binary32)
  | cutShort
  | otherText

/-- The payload of `elements` words in a text that follows a heading. It has to be
followed by a line feed or the end. -/
def candidate (body : Bytes) (elements : Nat) : Candidate :=
  let payload := body.take (4 * elements)
  if payload.length < 4 * elements then .cutShort
  else match body.drop (4 * elements) with
    | [] => .found (Binary32.listOfBytes payload)
    | b :: _ => if b = lineFeed then .found (Binary32.listOfBytes payload) else .otherText

/-- Looks for a record from a place of a stream on; `atLine` says whether a line starts here, and
`cut` whether a heading was found whose payload the stream is too short for. The end of such a
payload still has to be a size. -/
def findFrom (name : String) (elements place : Nat) (atLine cut : Bool) :
    Bytes → Except Error (List Binary32)
  | [] => .error (if cut then .shortRecord name elements else .noRecord name)
  | b :: rest =>
    if atLine && (heading name).isPrefixOf (b :: rest) then
      match candidate ((b :: rest).drop (heading name).length) elements with
      | .found values => .ok values
      | .cutShort => do
        requireSize (place + (heading name).length + 4 * elements)
        findFrom name elements (place + 1) (b == lineFeed) true rest
      | .otherText => findFrom name elements (place + 1) (b == lineFeed) cut rest
    else findFrom name elements (place + 1) (b == lineFeed) cut rest

/-- The first record of a name whose payload has the wanted length. -/
def find (stream : Bytes) (name : String) (elements : Nat) : Except Error (List Binary32) := do
  requireSize (4 * elements) stream.length
  findFrom name elements 0 true false stream

end Backprop.Snapshot
