import Mathlib
import Backprop.Optimizer
import Backprop.Proofs.Backend.Run
import Backprop.Proofs.Backend.Submission
import Backprop.Proofs.Kernel.Batch
import Backprop.Proofs.Network.Parts
import Backprop.Proofs.Network.Places
import Backprop.Proofs.Operator.Footprint

/-! Update rules as recurrences on single weights, and the dispatches that take one step of them
for every entry of a parameter. -/

namespace Backprop

variable {α : Type}

/-- A weight while it learns, with the moving averages of its gradient and of the square of it. -/
structure Learning (α : Type) where
  weight : α
  first : α
  second : α

def Learning.moment (s : Learning α) : Nat → α
  | 0 => s.first
  | _ => s.second

namespace Optimizer

variable [Scalar α]

/-- Step `t` of a rule, where the first step is number 1. -/
def step (o : Optimizer α) (t : Nat) (gradient : α) (s : Learning α) : Learning α :=
  match o with
  | gradientDescent alpha => { s with weight := s.weight - alpha * gradient }
  | adam alpha beta₁ beta₂ epsilon =>
    let first := beta₁ * s.first + (1 - beta₁) * gradient
    let second := beta₂ * s.second + (1 - beta₂) * gradient * gradient
    let mean := first / (1 - Scalar.power beta₁ t)
    let spread := Scalar.sqrt (second / (1 - Scalar.power beta₂ t))
    { weight := s.weight - alpha * mean / (spread + epsilon), first, second }

def descend (o : Optimizer α) (t : Nat) : List α → Learning α → Learning α
  | [], s => s
  | gradient :: gradients, s => o.descend (t + 1) gradients (o.step t gradient s)

theorem descend_append (o : Optimizer α) (t : Nat) (gradients : List α) (gradient : α)
    (s : Learning α) : o.descend t (gradients ++ [gradient]) s =
      o.step (t + gradients.length) gradient (o.descend t gradients s) := by
  induction gradients generalizing t s with
  | nil => rfl
  | cons g gradients ih =>
    rw [List.cons_append, descend, ih, List.length_cons, descend, Nat.add_right_comm, Nat.add_assoc]

end Optimizer

/-! ### Kernels -/

namespace Kernel

variable [Scalar α] {o : Operands α} {ws : Writes α} {n : Nat}

theorem gradientDescent_steps {alpha : α} {grad weight : Array α}
    (hgrad : o.args[0]? = some (.words grad)) (hweight : o.args[1]? = some (.words weight))
    (halpha : o.float 2 = .ok alpha) (hn : o.extent 3 = .ok n)
    (h : Kernel.gradientDescent o = .ok ws) :
    ∃ weight', ws = [(1, weight')] ∧ weight'.size = weight.size ∧
      (∀ i < n, ∃ w g, weight[i]? = some w ∧ grad[i]? = some g ∧ ∀ t first second,
        weight'[i]? =
          some ((Optimizer.gradientDescent alpha).step t g ⟨w, first, second⟩).weight) ∧
      ∀ i, n ≤ i → weight'[i]? = weight[i]? := by
  simp only [Kernel.gradientDescent, Except.bind_ok_iff, Except.pure_ok_iff, halpha, hn,
    Operands.words_ok_iff, hgrad, hweight, Except.ok.injEq] at h
  obtain ⟨_, rfl, _, rfl, _, ⟨hw, -⟩, _, ⟨hg, -⟩, weight', hupdate, rfl⟩ := h
  cases hw
  cases hg
  obtain ⟨hsize, hall, hrest⟩ := updateFirst_entries hupdate
  refine ⟨weight', rfl, hsize, fun i hi => ?_, hrest⟩
  obtain ⟨w, y, hw, hy, hnew⟩ := hall i hi
  simp only [Except.bind_ok_iff, Except.pure_ok_iff, read_ok_iff] at hy
  obtain ⟨g, hg, rfl⟩ := hy
  exact ⟨w, g, hw, hg, fun _ _ _ => hnew⟩

theorem adam_steps {alpha beta₁ beta₂ epsilon : α} {grad first second weight : Array α} {t : Nat}
    (hgrad : o.args[0]? = some (.words grad)) (hfirst : o.args[1]? = some (.words first))
    (hsecond : o.args[2]? = some (.words second)) (hweight : o.args[3]? = some (.words weight))
    (halpha : o.float 4 = .ok alpha) (hbeta₁ : o.float 5 = .ok beta₁)
    (hbeta₂ : o.float 6 = .ok beta₂) (hepsilon : o.float 7 = .ok epsilon)
    (hn : o.extent 8 = .ok n) (ht : o.int 9 = .ok (t + 1)) (h : Kernel.adam o = .ok ws) :
    ∃ first' second' weight', ws = [(1, first'), (2, second'), (3, weight')] ∧
      first'.size = first.size ∧ second'.size = second.size ∧ weight'.size = weight.size ∧
      (∀ i < n, ∃ s g, weight[i]? = some s.weight ∧ first[i]? = some s.first ∧
        second[i]? = some s.second ∧ grad[i]? = some g ∧
        let s' := (Optimizer.adam alpha beta₁ beta₂ epsilon).step (t + 1) g s
        weight'[i]? = some s'.weight ∧ first'[i]? = some s'.first ∧
          second'[i]? = some s'.second) ∧
      ∀ i, n ≤ i → weight'[i]? = weight[i]? := by
  have hsteps : (max ((t : Int) + 1) 1).toNat = t + 1 := by omega
  simp only [Kernel.adam, Except.bind_ok_iff, Except.pure_ok_iff, halpha, hbeta₁, hbeta₂, hepsilon,
    hn, ht, Operands.words_ok_iff, hgrad, hfirst, hsecond, hweight, Except.ok.injEq] at h
  obtain ⟨_, rfl, _, rfl, _, rfl, _, rfl, _, rfl, _, rfl, _, ⟨hf, -⟩, _, ⟨hs, -⟩, _, ⟨hw, -⟩,
    _, ⟨hg, -⟩, first', hfirst', second', hsecond', weight', hweight', rfl⟩ := h
  cases hf
  cases hs
  cases hw
  cases hg
  obtain ⟨hsizef, hallf, -⟩ := updateFirst_entries hfirst'
  obtain ⟨hsizes, halls, -⟩ := updateFirst_entries hsecond'
  obtain ⟨hsizew, hallw, hrest⟩ := updateFirst_entries hweight'
  refine ⟨first', second', weight', rfl, hsizef, hsizes, hsizew, fun i hi => ?_, hrest⟩
  obtain ⟨m, m', hm, hm', hnewf⟩ := hallf i hi
  obtain ⟨v, v', hv, hv', hnews⟩ := halls i hi
  obtain ⟨w, w', hw, hw', hneww⟩ := hallw i hi
  simp only [Except.bind_ok_iff, Except.pure_ok_iff, read_ok_iff] at hm' hv' hw'
  obtain ⟨g, hg, rfl⟩ := hm'
  obtain ⟨g', hg', rfl⟩ := hv'
  rw [hg, Option.some.injEq] at hg'
  subst hg'
  obtain ⟨m', hm', v', hv', rfl⟩ := hw'
  rw [hnewf, Option.some.injEq] at hm'
  rw [hnews, Option.some.injEq] at hv'
  subst hm' hv'
  rw [hsteps] at hneww
  exact ⟨⟨w, m, v⟩, g, hw, hm, hv, hg, hneww, hnewf, hnews⟩

end Kernel

/-! ### Dispatches -/

theorem Dispatch.afterRun_iterate [Scalar α] {d : Dispatch α} {index : Nat}
    (hincrement : d.increment = some index) {start : Int}
    (hstart : d.args[index]? = some (.scalar (.int32 (.ofInt start)))) (runs : Nat) :
    (Dispatch.afterRun^[runs] d).increment = some index ∧
      ∀ i, (Dispatch.afterRun^[runs] d).args[i]? =
        if i = index then some (.scalar (.int32 (.ofInt (start + runs)))) else d.args[i]? := by
  induction runs with
  | zero =>
    refine ⟨hincrement, fun i => ?_⟩
    rw [Function.iterate_zero_apply, Int.natCast_zero, Int.add_zero]
    split
    · next he => rw [he, hstart]
    · rfl
  | succ runs ih =>
    obtain ⟨hinc, hargs⟩ := ih
    rw [Function.iterate_succ_apply']
    generalize Dispatch.afterRun^[runs] d = e at hargs hinc
    have hafter : e.afterRun = { e with args := e.args.modify index (·.next) } := by
      unfold Dispatch.afterRun
      rw [hinc]
    have hnext : (.ofInt (start + runs) : Int32) + 1 = .ofInt (start + (runs + 1 : Nat)) := by
      rw [Int.natCast_succ, ← Int.add_assoc, Int32.ofInt_add (start + runs)]
      rfl
    rw [hafter]
    refine ⟨hinc, fun i => ?_⟩
    simp only [List.getElem?_modify, hargs i, eq_comm (a := index)]
    split
    · exact congrArg (fun v => some (KernelArg.scalar (.int32 v))) hnext
    · simp

/-! ### Parameters -/

namespace Tensor

def values (t : Tensor) (b : Backend α) (p : Part) : Array α :=
  match t.part? p with
  | some h => b.contents h
  | none => #[]

/-- Where entry `e` of a parameter stands: its weight, and its auxiliary buffers. -/
structure Learns (t : Tensor) (b : Backend α) (auxiliary e : Nat) (s : Learning α) : Prop where
  weight : (t.values b (.slot .forward 0))[e]? = some s.weight
  moment : ∀ j < auxiliary, (t.values b (.auxiliary j))[e]? = some (s.moment j)

variable {t : Tensor} {b : Backend α} {h : BufferId}

theorem Learns.congr {c : Backend α} {auxiliary e : Nat} {s : Learning α}
    (hl : t.Learns b auxiliary e s) (same : ∀ p, t.values c p = t.values b p) :
    t.Learns c auxiliary e s :=
  ⟨(same _).symm ▸ hl.weight, fun j hj => (same _).symm ▸ hl.moment j hj⟩

theorem values_part {p : Part} (hp : t.part? p = some h) : t.values b p = b.contents h := by
  rw [values, hp]

theorem parameter_part (hk : t.kind = .parameter) :
    (t.backwardBuffer .current = .ok h → t.part? (.slot .backward 0) = some h) ∧
      (t.forwardBuffer .current = .ok h → t.part? (.slot .forward 0) = some h) ∧
      ∀ j, t.forwardBuffer (.timestep j) = .ok h → t.part? (.auxiliary j) = some h := by
  have hzero : t.currentSlot = 0 := by rw [currentSlot, hk]
  refine ⟨fun hh => ?_, fun hh => ?_, fun j hh => ?_⟩
  · simp only [backwardBuffer, hk, TensorKind.hasBackward, if_true, hzero, slot_ok_iff] at hh
    exact hh.2
  · simp only [forwardBuffer, hzero, slot_ok_iff] at hh
    exact hh.2
  · simp only [forwardBuffer, hk, if_true] at hh
    split at hh
    · next found =>
      cases hh
      exact found
    · cases hh

end Tensor

namespace Backend.SameLayout

variable {b c : Backend α} {h k : BufferId} {data : Array α}

theorem contents_put (hl : b.SameLayout c) (hr : b.Resolves h)
    (hs : data.size = (b.contents h).size) : (c.put h data).contents h = data :=
  Backend.contents_put_self (hl.resolves hr)
    (hs.trans (size_contents_congr hr hl.buffers hl.sizes).symm)

theorem contents_put_apart (hl : b.SameLayout c) (hr : b.Resolves h) (ha : b.Apart h k)
    (hs : data.size = (b.contents h).size) : (c.put h data).contents k = c.contents k :=
  Backend.contents_put_apart (hl.resolves hr) (hl.apart ha)
    (hs.trans (size_contents_congr hr hl.buffers hl.sizes).symm)

end Backend.SameLayout

variable [Scalar α]

theorem Backend.execute_counted {b b₀ : Backend α} {r : Request α} {d : Dispatch α}
    {k : HostKernel} {dev : Device α} {runs : Nat} (himp : b₀.Implements r d)
    (hkernels : b.kernels = b₀.kernels) (hk : HostKernel.ofName? r.kernel = some k)
    (he : b.execute (Dispatch.afterRun^[runs] d) = .ok dev) :
    let args := (Dispatch.afterRun^[runs] d).args
    ∃ launch ws, (∀ h, .buffer h ∈ args → b.Resolves h) ∧
      k.run ⟨args.map b.operand, launch⟩ = .ok ws ∧
      { b with device := dev } = ws.foldl (putBack args) b := by
  obtain ⟨compiled, ws, hcompiled, hresolves, hrun, rfl⟩ := execute_ok_iff.mp he
  obtain ⟨compiled', hcompiled', hname⟩ := himp.kernel
  rw [Dispatch.Counted.kernel ⟨runs, rfl⟩, hkernels, hcompiled', Option.some.injEq] at hcompiled
  rw [hcompiled, hk, Option.some.injEq] at hname
  exact ⟨_, ws, hresolves, hname ▸ hrun, (foldl_putBack_same _ b ws).symm⟩

/-- An update takes one step of its rule for each entry of a parameter, as far as it is told. -/
structure Tensor.Steps (t : Tensor) (o : Optimizer α) (number : Nat) (b c : Backend α) : Prop where
  learns : ∀ e < told t.shape.elements, ∀ s, t.Learns b o.auxiliaryCount e s →
    ∃ g, (t.values b (.slot .backward 0))[e]? = some g ∧
      t.Learns c o.auxiliaryCount e (o.step number g s)
  rest : ∀ e, told t.shape.elements ≤ e →
    (t.values c (.slot .forward 0))[e]? = (t.values b (.slot .forward 0))[e]?

namespace Optimizer

variable {t : Tensor} {b b₀ : Backend α} {r : Request α} {d : Dispatch α} {dev : Device α}
  {runs : Nat}

theorem gradientDescent_requests {alpha : α} (kind : t.kind = .parameter)
    (hrs : (gradientDescent alpha).requests t = .ok [r]) (himp : b₀.Implements r d)
    (hkernels : b.kernels = b₀.kernels)
    (he : b.execute (Dispatch.afterRun^[runs] d) = .ok dev) (number : Nat) :
    t.Steps (gradientDescent alpha) number b { b with device := dev } := by
  simp only [requests, Except.bind_ok_iff, Except.pure_ok_iff, List.cons.injEq, and_true] at hrs
  obtain ⟨gradient, hg, weight, hw, rfl⟩ := hrs
  replace hg := (Tensor.parameter_part kind).1 hg
  replace hw := (Tensor.parameter_part kind).2.1 hw
  obtain ⟨launch, ws, hresolves, hrun, hc⟩ :=
    Backend.execute_counted himp hkernels (k := .gradientDescent) rfl he
  rw [Dispatch.Counted.eq_of_plain ⟨runs, rfl⟩ himp.increment, himp.args] at hresolves hrun hc
  obtain ⟨weight', rfl, hsize, hall, hrest⟩ := Kernel.gradientDescent_steps rfl rfl
    (Operands.float_at rfl rfl) (Operands.extent_int rfl) hrun
  have hput : { b with device := dev } = b.put weight weight' := hc
  have hvalues : t.values { b with device := dev } (.slot .forward 0) = weight' := by
    rw [hput, Tensor.values_part hw]
    exact Backend.contents_put_self (hresolves weight (by simp)) hsize
  refine ⟨fun e he s hs => ?_, fun e he => ?_⟩
  · obtain ⟨w, g, hweight, hgrad, hnew⟩ := hall e he
    have hold := hs.weight
    rw [Tensor.values_part hw, hweight, Option.some.injEq] at hold
    subst hold
    refine ⟨g, (Tensor.values_part hg).symm ▸ hgrad, hvalues ▸ hnew number _ _, fun j hj => ?_⟩
    cases hj
  · rw [hvalues, Tensor.values_part hw]
    exact hrest e he

theorem adam_requests {alpha beta₁ beta₂ epsilon : α} (kind : t.kind = .parameter)
    (hrs : (adam alpha beta₁ beta₂ epsilon).requests t = .ok [r]) (himp : b₀.Implements r d)
    (hkernels : b.kernels = b₀.kernels) (hruns : runs + 1 < 2 ^ 31)
    (apart : ∀ p q h l, p ≠ q → t.part? p = some h → t.part? q = some l → b.Apart h l)
    (he : b.execute (Dispatch.afterRun^[runs] d) = .ok dev) :
    t.Steps (adam alpha beta₁ beta₂ epsilon) (runs + 1) b { b with device := dev } := by
  simp only [requests, Except.bind_ok_iff, Except.pure_ok_iff, List.cons.injEq, and_true] at hrs
  obtain ⟨gradient, hg, first, hf, second, hs, weight, hw, rfl⟩ := hrs
  replace hg := (Tensor.parameter_part kind).1 hg
  replace hf := (Tensor.parameter_part kind).2.2 0 hf
  replace hs := (Tensor.parameter_part kind).2.2 1 hs
  replace hw := (Tensor.parameter_part kind).2.1 hw
  obtain ⟨launch, ws, hresolves, hrun, hc⟩ :=
    Backend.execute_counted himp hkernels (k := .adam) rfl he
  have hstart : d.args[9]? = some (.scalar (.int32 (.ofInt 1))) := by
    rw [himp.args]
    rfl
  obtain ⟨-, hargs⟩ := Dispatch.afterRun_iterate himp.increment hstart runs
  generalize (Dispatch.afterRun^[runs] d).args = args at hresolves hrun hc hargs
  -- all arguments but the number of the step are those of the request
  have hoperand : ∀ i arg, args[i]? = some arg → (args.map b.operand)[i]? = some (b.operand arg) :=
    fun i arg h => by rw [List.getElem?_map, h, Option.map_some]
  rw [himp.args] at hargs
  have hnumber : (⟨args.map b.operand, launch⟩ : Operands α).int 9 = .ok (runs + 1) := by
    have hget := Operands.get_ok_iff (o := ⟨args.map b.operand, launch⟩).mpr
      (hoperand 9 _ (hargs 9))
    rw [Operands.int, hget]
    change Except.ok (Int32.toInt (.ofInt (1 + runs))) = _
    rw [Int32.toInt_ofInt_of_le (by omega) (by omega), Int.add_comm]
  obtain ⟨first', second', weight', rfl, hsizef, hsizes, hsizew, hall, hrest⟩ :=
    Kernel.adam_steps (hoperand 0 _ (hargs 0)) (hoperand 1 _ (hargs 1)) (hoperand 2 _ (hargs 2))
      (hoperand 3 _ (hargs 3)) (Operands.float_at rfl (hoperand 4 _ (hargs 4)))
      (Operands.float_at rfl (hoperand 5 _ (hargs 5)))
      (Operands.float_at rfl (hoperand 6 _ (hargs 6)))
      (Operands.float_at rfl (hoperand 7 _ (hargs 7)))
      (Operands.extent_int (hoperand 8 _ (hargs 8))) hnumber hrun
  have hput : { b with device := dev } =
      ((b.put first first').put second second').put weight weight' := by
    simp only [hc, List.foldl_cons, List.foldl_nil, Backend.putBack, hargs 1, hargs 2, hargs 3]
    rfl
  have hrf := hresolves first (List.mem_of_getElem? (hargs 1))
  have hrs := hresolves second (List.mem_of_getElem? (hargs 2))
  have hrw := hresolves weight (List.mem_of_getElem? (hargs 3))
  have hsf : b.Apart second first := apart _ _ _ _ (by simp) hs hf
  have hwf : b.Apart weight first := apart _ _ _ _ (by simp) hw hf
  have hws : b.Apart weight second := apart _ _ _ _ (by simp) hw hs
  have hl := Backend.SameLayout.refl b
  have hl₁ := hl.put first first'
  have hl₂ := hl₁.put second second'
  have hfirst : t.values { b with device := dev } (.auxiliary 0) = first' := by
    rw [hput, Tensor.values_part hf, hl₂.contents_put_apart hrw hwf hsizew,
      hl₁.contents_put_apart hrs hsf hsizes, hl.contents_put hrf hsizef]
  have hsecond : t.values { b with device := dev } (.auxiliary 1) = second' := by
    rw [hput, Tensor.values_part hs, hl₂.contents_put_apart hrw hws hsizew,
      hl₁.contents_put hrs hsizes]
  have hweight : t.values { b with device := dev } (.slot .forward 0) = weight' := by
    rw [hput, Tensor.values_part hw, hl₂.contents_put hrw hsizew]
  refine ⟨fun e he s hlearns => ?_, fun e he => ?_⟩
  · obtain ⟨⟨w, m, v⟩, g, hw₀, hf₀, hs₀, hg₀, hw', hf', hs'⟩ := hall e he
    have holdw := hlearns.weight
    have holdf := hlearns.moment 0 (by simp [auxiliaryCount])
    have holds := hlearns.moment 1 (by simp [auxiliaryCount])
    rw [Tensor.values_part hw, hw₀, Option.some.injEq] at holdw
    rw [Tensor.values_part hf, hf₀, Option.some.injEq] at holdf
    rw [Tensor.values_part hs, hs₀, Option.some.injEq] at holds
    obtain rfl : (⟨w, m, v⟩ : Learning α) = s := by
      cases s
      simp_all [Learning.moment]
    refine ⟨g, (Tensor.values_part hg).symm ▸ hg₀, hweight ▸ hw', fun j hj => ?_⟩
    obtain rfl | rfl : j = 0 ∨ j = 1 := by
      simp only [auxiliaryCount] at hj
      omega
    · exact hfirst ▸ hf'
    · exact hsecond ▸ hs'
  · rw [hweight, Tensor.values_part hw]
    exact hrest e he

theorem requests_steps {o : Optimizer α} (kind : t.kind = .parameter)
    (hrs : o.requests t = .ok [r]) (himp : b₀.Implements r d) (hkernels : b.kernels = b₀.kernels)
    (hruns : runs + 1 < 2 ^ 31)
    (apart : ∀ p q h l, p ≠ q → t.part? p = some h → t.part? q = some l → b.Apart h l)
    (he : b.execute (Dispatch.afterRun^[runs] d) = .ok dev) :
    t.Steps o (runs + 1) b { b with device := dev } := by
  cases o with
  | gradientDescent alpha => exact gradientDescent_requests kind hrs himp hkernels he (runs + 1)
  | adam alpha beta₁ beta₂ epsilon =>
    exact adam_requests kind hrs himp hkernels hruns apart he

omit [Scalar α] in
theorem requests_weight {o : Optimizer α} (kind : t.kind = .parameter)
    (hrs : o.requests t = .ok [r]) (himp : b.Implements r d) :
    ∃ h, t.part? (.slot .forward 0) = some h ∧ b.Writes d h := by
  obtain ⟨compiled, hcompiled, hname⟩ := himp.kernel
  cases o with
  | gradientDescent alpha =>
    simp only [requests, Except.bind_ok_iff, Except.pure_ok_iff, List.cons.injEq, and_true] at hrs
    obtain ⟨gradient, -, weight, hw, rfl⟩ := hrs
    obtain hkernel : HostKernel.gradientDescent = compiled.kernel := Option.some.inj hname
    refine ⟨weight, (Tensor.parameter_part kind).2.1 hw, compiled, hcompiled, ?_⟩
    rw [← hkernel, himp.args]
    exact List.mem_singleton.mpr rfl
  | adam alpha beta₁ beta₂ epsilon =>
    simp only [requests, Except.bind_ok_iff, Except.pure_ok_iff, List.cons.injEq, and_true] at hrs
    obtain ⟨gradient, -, first, -, second, -, weight, hw, rfl⟩ := hrs
    obtain hkernel : HostKernel.adam = compiled.kernel := Option.some.inj hname
    refine ⟨weight, (Tensor.parameter_part kind).2.1 hw, compiled, hcompiled, ?_⟩
    rw [← hkernel, himp.args]
    change weight ∈ [first, second, weight]
    simp

end Optimizer

theorem Tensor.Steps.congr {t : Tensor} {o : Optimizer α} {number : Nat} {b b' c c' : Backend α}
    (h : t.Steps o number b c) (before : ∀ p, t.values b p = t.values b' p)
    (after : ∀ p, t.values c' p = t.values c p) : t.Steps o number b' c' where
  learns e he s hs := by
    obtain ⟨g, hg, hnext⟩ := h.learns e he s (hs.congr before)
    exact ⟨g, before _ ▸ hg, hnext.congr after⟩
  rest e he := by
    rw [after, h.rest e he, before]

end Backprop
