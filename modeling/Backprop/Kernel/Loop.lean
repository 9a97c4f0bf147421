import Backprop.Error

/-! Loops and checked accesses out of which kernels are made. An access outside an
array is a fault and never a value. -/

namespace Backprop

variable {α σ : Type}

/-- Runs `step` for `i`, `i + 1`, … on `count` indices. -/
@[specialize] def loopFrom (step : Nat → σ → Except Error σ) : (count i : Nat) → σ → Except Error σ
  | 0, _, s => .ok s
  | count + 1, i, s =>
    match step i s with
    | .ok s => loopFrom step count (i + 1) s
    | .error e => .error e

@[inline] def loop (n : Nat) (s : σ) (step : Nat → σ → Except Error σ) : Except Error σ :=
  loopFrom step n 0 s

@[inline] def read (a : Array α) (i : Nat) : Except Error α :=
  if h : i < a.size then .ok a[i] else .error (.fault .outOfBounds)

@[inline] def write (a : Array α) (i : Nat) (x : α) : Except Error (Array α) :=
  if h : i < a.size then .ok (a.set i x) else .error (.fault .outOfBounds)

/-- The entry at `i`, replaced by `f` of it. -/
@[inline] def update (a : Array α) (i : Nat) (f : α → Except Error α) : Except Error (Array α) := do
  write a i (← f (← read a i))

/-- The entries at `base`, `base + 1`, … replaced on `n` indices by `f` of the
offset and the entry. -/
@[specialize] def updateSpan (base n : Nat) (a : Array α) (f : Nat → α → Except Error α) :
    Except Error (Array α) :=
  loop n a fun i a => update a (base + i) (f i)

/-- The first `n` entries replaced by `f` of the index and the entry. -/
@[inline] def updateFirst (n : Nat) (a : Array α) (f : Nat → α → Except Error α) :
    Except Error (Array α) :=
  updateSpan 0 n a f

def nonemptyRows (rows cols : Nat) : Nat := if cols = 0 then 0 else rows

/-- A number that is going to be divided by. -/
@[inline] def divisor (n : Nat) : Except Error Nat :=
  if n = 0 then .error (.fault .divisionByZero) else .ok n

@[inline] def quotient (a b : Nat) : Except Error Nat :=
  if b = 0 then .error (.fault .divisionByZero) else .ok (a / b)

@[inline] def remainder (a b : Nat) : Except Error Nat :=
  if b = 0 then .error (.fault .divisionByZero) else .ok (a % b)

theorem divisor_of_pos {n : Nat} (h : 0 < n) : divisor n = .ok n := if_neg (Nat.ne_of_gt h)

theorem loopFrom_eq_foldlM (step : Nat → σ → Except Error σ) (count i : Nat) (s : σ) :
    loopFrom step count i s = (List.range' i count).foldlM (fun s i => step i s) s := by
  induction count generalizing i s with
  | zero => rfl
  | succ count ih =>
    rw [loopFrom, List.range'_succ, List.foldlM_cons]
    cases step i s with
    | error e => rfl
    | ok s => exact ih (i + 1) s

theorem loop_eq_foldlM (n : Nat) (s : σ) (step : Nat → σ → Except Error σ) :
    loop n s step = (List.range n).foldlM (fun s i => step i s) s := by
  rw [loop, loopFrom_eq_foldlM, List.range_eq_range']

theorem read_of_lt {a : Array α} {i : Nat} (h : i < a.size) : read a i = .ok a[i] := by
  simp [read, h]

theorem write_of_lt {a : Array α} {i : Nat} (h : i < a.size) (x : α) :
    write a i x = .ok (a.set i x) := by
  simp [write, h]

end Backprop
