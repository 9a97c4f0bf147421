import Backprop.Error
import Backprop.Number.Decoded
import Backprop.Pass

/-! Times of passes, in milliseconds, and what is said of them. -/

namespace Backprop

structure TimingStats where
  pass : Pass
  count : Nat
  total : Float
  mean : Float
  least : Float
  greatest : Float
  deviation : Float

abbrev Timings := PerPass (Array Float)

namespace Timings

def empty : Timings := .replicate #[]

/-- A duration in milliseconds. The whole seconds among the nanoseconds join the others,
and all of them fit in a word. -/
def milliseconds (seconds nanoseconds : Nat) : Except Error Float :=
  let seconds := seconds + nanoseconds / 1000000000
  let nanoseconds := nanoseconds % 1000000000
  if seconds < UInt64.size then
    .ok (((UInt64.ofNat seconds).toFloat + (UInt64.ofNat nanoseconds).toFloat / 1e9) * 1000)
  else .error (.fault .overlongTime)

def record (t : Timings) (pass : Pass) (time : Float) : Timings := t.modify pass (·.push time)

/-- The sum from the left; without terms it is the negative zero. -/
def sum (times : Array Float) : Float := times.foldl (· + ·) (-0.0)

def stats? (t : Timings) (pass : Pass) : Option TimingStats :=
  let times := t.get pass
  if times.isEmpty then none
  else
    let count := times.size
    let total := sum times
    let mean := total / count.toFloat
    let variance := sum (times.map fun x => (x - mean) * (x - mean)) / count.toFloat
    some {
      pass, count, total, mean
      least := times.foldl (fun a b => if b < a then b else a) (1.0 / 0.0)
      greatest := times.foldl (fun a b => if a < b then b else a) (-1.0 / 0.0)
      deviation := variance.sqrt }

def fixed (places : Nat) (x : Float) : String := (Decoded.ofFloat x).toFixed places

def line (s : TimingStats) : String :=
  let range := s!"{fixed 3 s.least}..{fixed 3 s.greatest}, sd {fixed 3 s.deviation}"
  s!"{s.pass.name}: {s.count} runs, {fixed 3 s.mean}ms avg ({range}), {fixed 2 s.total}ms total"

/-- A line for each pass that ran. -/
def summary (t : Timings) : List String := (Pass.all.filterMap t.stats?).map line

end Timings

end Backprop
