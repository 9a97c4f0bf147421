import Mathlib
import Backprop.Optimizer
import Backprop.Proofs.Backend.Effects
import Backprop.Proofs.Operator.Demands

/-! Passes that cannot fail. A request lasts when its kernel succeeds whatever the buffers hold and
however often it has been run; a pass over such requests comes to its end, and the updates of a rule
are such requests. -/

namespace Backprop

variable {α : Type}

section

variable [Scalar α]

namespace Dispatch

variable {d e : Dispatch α}

theorem Counted.launch (h : d.Counted e) : e.launch = d.launch := by
  obtain ⟨runs, rfl⟩ := h
  induction runs with
  | zero => rfl
  | succ runs ih =>
    rw [Function.iterate_succ_apply', ← ih]
    unfold afterRun
    split <;> rfl

theorem Counted.args {front : List (KernelArg α)} {v : Int32} (h : d.Counted e)
    (args : d.args = front ++ [.scalar (.int32 v)])
    (increment : d.increment = some front.length) :
    ∃ v', e.args = front ++ [.scalar (.int32 v')] := by
  obtain ⟨runs, rfl⟩ := h
  have hinv : (Dispatch.afterRun^[runs] d).increment = some front.length ∧
      ∃ v', (Dispatch.afterRun^[runs] d).args = front ++ [.scalar (.int32 v')] := by
    induction runs with
    | zero => exact ⟨increment, v, args⟩
    | succ runs ih =>
      obtain ⟨hincrement, v', hargs⟩ := ih
      rw [Function.iterate_succ_apply']
      generalize Dispatch.afterRun^[runs] d = e at hincrement hargs
      have hafter : e.afterRun = { e with args := e.args.modify front.length (·.next) } := by
        unfold Dispatch.afterRun
        rw [hincrement]
      refine ⟨by rw [hafter, hincrement], v' + 1, ?_⟩
      rw [hafter, hargs]
      have hlast := List.modifyTailIdx_add (List.modifyHead (KernelArg.next (α := α))) 0 front
        [.scalar (.int32 v')]
      exact hlast
  exact hinv.2

end Dispatch

namespace Request

/-- The kernel succeeds on what the buffers hold, however often the request has been run. -/
structure Lasts (r : Request α) (c : Backend α) : Prop where
  resolves : ∀ h, .buffer h ∈ r.args → c.Resolves h
  runs : ∀ d e : Dispatch α, d.args = r.args → d.increment = r.increment → d.Counted e →
    ∃ k ws, HostKernel.ofName? r.kernel = some k ∧
      k.run ⟨e.args.map c.operand, r.launch⟩ = .ok ws

theorem RunsOn.lasts {r : Request α} {c : Backend α} (h : r.RunsOn c) (plain : r.increment = none)
    (resolves : ∀ h, .buffer h ∈ r.args → c.Resolves h) : r.Lasts c := by
  refine ⟨resolves, fun d e hargs hincrement hcounted => ?_⟩
  rw [hcounted.eq_of_plain (hincrement.trans plain), hargs]
  exact h

end Request

namespace Backend

variable {b c : Backend α} {r : Request α} {d e : Dispatch α} {pass : Pass}

theorem Implements.executes_counted (himp : b.Implements r d) (hk : c.kernels = b.kernels)
    (lasts : r.Lasts c) (hcounted : d.Counted e) : ∃ dev, c.execute e = .ok dev := by
  obtain ⟨compiled, hcompiled, hname⟩ := himp.kernel
  obtain ⟨k, ws, hkernel, hrun⟩ := lasts.runs d e himp.args himp.increment hcounted
  rw [hkernel, Option.some.injEq] at hname
  subst hname
  refine ⟨_, execute_ok_iff.mpr ⟨compiled, ws, ?_, fun h hh => ?_, ?_, rfl⟩⟩
  · rw [hcounted.kernel, hk, hcompiled]
  · exact lasts.resolves h (himp.args ▸ hcounted.buffer_mem hh)
  · rw [hcounted.launch, himp.launch]
    exact hrun

theorem Played.play_succeeds (hc : b.Played pass c fun _ => True)
    (executes : ∀ d ∈ b.dispatches.get pass, ∀ e, d.Counted e → ∀ c, b.Later c →
      ∃ dev, c.execute e = .ok dev) (position : Nat) :
    ∃ c', play pass position c = .ok ⟨⟩ c' ∧ b.Played pass c' fun _ => True := by
  have hplay : ∃ c', play pass position c = .ok ⟨⟩ c' := by
    cases he : (c.dispatches.get pass)[position]? with
    | none => exact ⟨c, play_ok_iff.mpr (.inl ⟨he, rfl⟩)⟩
    | some e =>
      have hlist : (c.dispatches.get pass).toList[position]? = some e := by simpa using he
      obtain ⟨d, hd, hcounted⟩ := forall₂_getElem? hc.counted.flip hlist
      obtain ⟨dev, hdev⟩ := executes d (by simpa using List.mem_of_getElem? hd) e hcounted c
        ⟨hc.same, hc.alters.sizes⟩
      exact ⟨_, play_ok_iff.mpr (.inr ⟨e, dev, he, hdev, rfl⟩)⟩
  obtain ⟨c', hc'⟩ := hplay
  have hkept := (play_played (H := fun _ => True) (fun _ _ _ _ => trivial) position c hc).1
  exact ⟨c', hc', Call.after_of_ok hc' ▸ hkept⟩

/-- A pass succeeds where its dispatches do, whatever the ones before them have left. -/
theorem run_succeeds (executes : ∀ d ∈ b.dispatches.get pass, ∀ e, d.Counted e → ∀ c, b.Later c →
    ∃ dev, c.execute e = .ok dev) : ∃ c, run pass b = .ok ⟨⟩ c := by
  obtain ⟨c, hc, -⟩ := Call.forM_succeeds (P := fun c => b.Played pass c fun _ => True)
    (l := playOrder pass (b.dispatches.get pass).size)
    (fun position _ c hc => hc.play_succeeds executes position) (.refl ..)
  exact ⟨c, Call.get_bind_ok_iff.mpr hc⟩

end Backend

end

/-! ### Rules -/

namespace Optimizer

variable {o : Optimizer α} {t : Tensor} {b c : Backend α} {r : Request α}

theorem requests_accepted (hrs : o.requests t = .ok [r])
    (registry : ∀ k : HostKernel, b.registry.contains k.name)
    (holds : ∀ h, .buffer h ∈ r.args → b.Resolves h) : b.Accepts r := by
  have hbuffers : ∀ h, .buffer h ∈ r.args → ∃ buffer, b.buffers[h.index]? = some buffer := by
    intro h hh
    obtain ⟨buffer, hb, -⟩ := holds h hh
    exact ⟨buffer, hb⟩
  cases o with
  | gradientDescent alpha =>
    simp only [requests, Except.bind_ok_iff, Except.pure_ok_iff, List.cons.injEq, and_true] at hrs
    obtain ⟨gradient, -, weight, -, rfl⟩ := hrs
    exact ⟨⟨registry .gradientDescent, .gradientDescent, rfl⟩, hbuffers,
      Launch.elementwise_isWhole _, nofun⟩
  | adam alpha beta₁ beta₂ epsilon =>
    simp only [requests, Except.bind_ok_iff, Except.pure_ok_iff, List.cons.injEq, and_true] at hrs
    obtain ⟨gradient, -, first, -, second, -, weight, -, rfl⟩ := hrs
    refine ⟨⟨registry .adam, .adam, rfl⟩, hbuffers, Launch.elementwise_isWhole _,
      fun index hindex => ?_⟩
    obtain rfl := Option.some.inj hindex
    rfl

variable [Scalar α]

theorem requests_last (hrs : o.requests t = .ok [r])
    (holds : ∀ h, (t.backwardBuffer .current = .ok h ∨ t.forwardBuffer .current = .ok h ∨
      ∃ j, t.forwardBuffer (.timestep j) = .ok h) →
        c.Resolves h ∧ t.shape.elements ≤ (c.contents h).size) : r.Lasts c := by
  cases o with
  | gradientDescent alpha =>
    simp only [requests, Except.bind_ok_iff, Except.pure_ok_iff, List.cons.injEq, and_true] at hrs
    obtain ⟨gradient, hg, weight, hw, rfl⟩ := hrs
    obtain ⟨hrg, hsg⟩ := holds _ (.inl hg)
    obtain ⟨hrw, hsw⟩ := holds _ (.inr (.inl hw))
    refine Request.RunsOn.lasts (.of_willing (k := .gradientDescent) rfl
      (Kernel.gradientDescent_willing rfl hsg hsw)) rfl fun h hh => ?_
    simp only [List.mem_cons, KernelArg.buffer.injEq, List.not_mem_nil, KernelArg.int,
      KernelArg.signed, KernelArg.float, reduceCtorEq, or_false] at hh
    obtain rfl | rfl := hh
    · exact hrg
    · exact hrw
  | adam alpha beta₁ beta₂ epsilon =>
    simp only [requests, Except.bind_ok_iff, Except.pure_ok_iff, List.cons.injEq, and_true] at hrs
    obtain ⟨gradient, hg, first, hf, second, hs, weight, hw, rfl⟩ := hrs
    obtain ⟨hrg, hsg⟩ := holds _ (.inl hg)
    obtain ⟨hrf, hsf⟩ := holds _ (.inr (.inr ⟨0, hf⟩))
    obtain ⟨hrs, hss⟩ := holds _ (.inr (.inr ⟨1, hs⟩))
    obtain ⟨hrw, hsw⟩ := holds _ (.inr (.inl hw))
    refine ⟨fun h hh => ?_, fun d e hargs hincrement hcounted => ?_⟩
    · simp only [List.mem_cons, KernelArg.buffer.injEq, List.not_mem_nil, KernelArg.int,
        KernelArg.signed, KernelArg.float, reduceCtorEq, or_false] at hh
      obtain rfl | rfl | rfl | rfl := hh
      · exact hrg
      · exact hrf
      · exact hrs
      · exact hrw
    · have hlast : d.args = [.buffer gradient, .buffer first, .buffer second, .buffer weight,
          .float alpha, .float beta₁, .float beta₂, .float epsilon, .int t.shape.elements] ++
          [.int 1] := hargs
      obtain ⟨v, hv⟩ := hcounted.args hlast hincrement
      have hwilling : Willing
          (HostKernel.adam.run ⟨e.args.map c.operand, .elementwise t.shape.elements⟩) := by
        rw [hv]
        exact Kernel.adam_willing rfl hsg hsf hss hsw
      obtain ⟨ws, hws⟩ := hwilling.succeeds
      exact ⟨.adam, ws, rfl, hws⟩

end Optimizer

end Backprop
