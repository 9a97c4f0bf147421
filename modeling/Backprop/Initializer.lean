import Backprop.Capacity
import Backprop.Number.Cosine
import Backprop.Random.Generator
import Backprop.Shape

/-! First values of a parameter, drawn from a generator. -/

namespace Backprop

inductive Initializer where
  | constant (value : Binary32)
  | uniform (low high : Binary32)
  | normal (mean stddev : Binary32)
  /-- Draws more than two standard deviations out are repeated. -/
  | truncated (mean stddev : Binary32)
  /-- As `truncated`, with a spread for as many inputs as the parameter has rows. -/
  | xavier (mean : Binary32)
deriving DecidableEq, Repr

/-- Draws after which a repetition counts as endless. -/
def redrawLimit : Nat := 1000000

namespace Generator

/-- Repeats `draw` until a value is accepted. -/
def redraw (draw : Generator → Binary32 × Generator) (accept : Binary32 → Bool) :
    (limit : Nat) → Generator → Except Error (Binary32 × Generator)
  | 0, _ => .error (.fault .endlessRedraw)
  | limit + 1, g =>
    let (x, g) := draw g
    if accept x then .ok (x, g) else redraw draw accept limit g

def drawMany (draw : Generator → Except Error (Binary32 × Generator)) :
    (n : Nat) → Array Binary32 → Generator → Except Error (Array Binary32 × Generator)
  | 0, drawn, g => .ok (drawn, g)
  | n + 1, drawn, g =>
    match draw g with
    | .ok (x, g) => drawMany draw n (drawn.push x) g
    | .error e => .error e

/-- The polar form of two draws from the unit interval, of which the first is turned
round so that its logarithm is finite. -/
def standardNormal (g : Generator) : Binary32 × Generator :=
  let (first, g) := g.nextUnit
  let (second, g) := g.nextUnit
  let radius := Binary32.sqrt (⟨0xc0000000⟩ * Binary32.log (1 - first))
  (radius * Binary32.cos (⟨0x40000000⟩ * ⟨0x40490fdb⟩ * second), g)

def normal (mean stddev : Binary32) (g : Generator) : Binary32 × Generator :=
  let (z, g) := g.standardNormal
  (mean + stddev * z, g)

/-- Whether a value lies at most two standard deviations from the mean. -/
def isNear (mean stddev value : Binary32) : Bool :=
  (value - mean).abs.lessEq (⟨0x40000000⟩ * stddev)

def truncated (mean stddev : Binary32) (g : Generator) : Except Error (Binary32 × Generator) :=
  redraw (normal mean stddev) (isNear mean stddev) redrawLimit g

/-- A number from `low` up to but not including `high`. -/
def uniform (low high : Binary32) (g : Generator) : Except Error (Binary32 × Generator) :=
  let scale := high - low
  if scale.isFinite then redraw (·.nextCandidate low scale) (·.less high) redrawLimit g
  else .error (.fault .unboundedRange)

end Generator

namespace Initializer

def xavierStddev (shape : Shape) : Binary32 :=
  Binary32.sqrt (⟨0x40000000⟩ / Binary32.ofInt (Nat.max shape.y 1))

def sample (i : Initializer) (shape : Shape) (g : Generator) :
    Except Error (Array Binary32 × Generator) := do
  let n := shape.elements
  requireRoom n 4
  match i with
  | constant value => return (Array.replicate n value, g)
  | uniform low high =>
    if low.less high then g.drawMany (·.uniform low high) n #[]
    else return (Array.replicate n low, g)
  | normal mean stddev => g.drawMany (fun g => .ok (g.normal mean stddev)) n #[]
  | truncated mean stddev => g.drawMany (·.truncated mean stddev) n #[]
  | xavier mean => g.drawMany (·.truncated mean (xavierStddev shape)) n #[]

end Initializer

end Backprop
