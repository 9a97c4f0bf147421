import Mathlib
import Backprop.Backend.Basic
import Backprop.Proofs.Backend.Allocation

/-! Recording dispatches: a submitted request stands at the end of its list as a dispatch of
the host's kernel of that name. -/

namespace Backprop

variable {α : Type}

theorem HostKernel.ofName?_name (k : HostKernel) : HostKernel.ofName? k.name = some k := by
  cases k <;> rfl

theorem HostKernel.name_of_ofName? {name : String} {k : HostKernel}
    (h : HostKernel.ofName? name = some k) : name = k.name := by
  have hname := List.find?_some h
  exact (beq_iff_eq.mp hname).symm

namespace Launch

theorem roundUp_whole (total group : Nat) :
    max group 1 ≠ 0 ∧ roundUp total group % max group 1 = 0 :=
  ⟨by omega, Nat.mul_mod_left ..⟩

theorem tiled_isWhole (width height : Nat) : (tiled width height).IsWhole := by
  simp only [IsWhole, tiled, twoAxes, Axes.toList, List.zip_cons_cons, List.zip_nil_left,
    List.mem_cons, List.not_mem_nil, or_false, forall_eq_or_imp, forall_eq]
  exact ⟨roundUp_whole .., roundUp_whole .., by decide⟩

theorem planes_isWhole (width height depth : Nat) : (planes width height depth).IsWhole := by
  simp only [IsWhole, planes, threeAxes, Axes.toList, List.zip_cons_cons, List.zip_nil_left,
    List.mem_cons, List.not_mem_nil, or_false, forall_eq_or_imp, forall_eq]
  exact ⟨roundUp_whole .., roundUp_whole .., roundUp_whole ..⟩

theorem elementwise_isWhole (n : Nat) : (elementwise n).IsWhole := by
  simp only [IsWhole, elementwise, oneAxis, Axes.toList, List.zip_cons_cons, List.zip_nil_left,
    List.mem_cons, List.not_mem_nil, or_false, forall_eq_or_imp, forall_eq]
  exact ⟨roundUp_whole .., by decide, by decide⟩

theorem single_isWhole : single.IsWhole := by decide

end Launch

namespace Backend

/-- Every compiled kernel is the kernel the host has under its name. -/
def Sound (b : Backend α) : Prop :=
  ∀ (i : Nat) (compiled : CompiledKernel), b.kernels[i]? = some compiled →
    HostKernel.ofName? compiled.name = some compiled.kernel

/-- A dispatch that does what a request asks for. -/
structure Implements (b : Backend α) (r : Request α) (d : Dispatch α) : Prop where
  kernel : ∃ compiled, b.kernels[d.kernel.index]? = some compiled ∧
    HostKernel.ofName? r.kernel = some compiled.kernel
  args : d.args = r.args
  launch : d.launch = r.launch
  increment : d.increment = r.increment

def withKernels (b : Backend α) (ks : Array CompiledKernel) : Backend α :=
  { b with kernels := b.kernels ++ ks }

theorem Implements.withKernels {b : Backend α} {r : Request α} {d : Dispatch α}
    (h : b.Implements r d) (ks : Array CompiledKernel) : (b.withKernels ks).Implements r d := by
  obtain ⟨compiled, hk, hn⟩ := h.kernel
  refine ⟨⟨compiled, ?_, hn⟩, h.args, h.launch, h.increment⟩
  rw [Backend.withKernels, Array.getElem?_append_left (Array.getElem?_eq_some_iff.mp hk).1, hk]

theorem Implements.congr {b c : Backend α} {r : Request α} {d : Dispatch α}
    (h : b.Implements r d) (hk : c.kernels = b.kernels) : c.Implements r d :=
  ⟨by rw [hk]; exact h.kernel, h.args, h.launch, h.increment⟩

theorem kernel_ok {b c : Backend α} {name defines : String} {id : KernelId} (sound : b.Sound)
    (h : kernel name defines b = .ok id c) :
    (∃ ks, c = b.withKernels ks) ∧ c.Sound ∧
      ∃ compiled, c.kernels[id.index]? = some compiled ∧
        HostKernel.ofName? name = some compiled.kernel := by
  rw [kernel, Call.get_bind_ok_iff] at h
  cases hf : b.kernels.findIdx? fun k => k.name == name && k.defines == defineList defines with
  | some index =>
    rw [hf] at h
    obtain ⟨rfl, rfl⟩ := Call.pure_ok_iff.mp h
    obtain ⟨hlt, hname, -⟩ := Array.findIdx?_eq_some_iff_getElem.mp hf
    have hn : b.kernels[index].name = name := by
      simp only [Bool.and_eq_true, beq_iff_eq] at hname
      exact hname.1
    refine ⟨⟨#[], by simp [withKernels]⟩, sound, b.kernels[index], by simp [hlt], ?_⟩
    rw [← hn]
    exact sound index _ (by simp [hlt])
  | none =>
    rw [hf] at h
    simp only at h
    replace h := (Call.ite_throw_ok_iff.mp h).2
    cases hk : HostKernel.ofName? name with
    | none =>
      simp only [hk, Call.throw_ok_iff] at h
    | some found =>
      simp only [hk, Call.set_bind_ok_iff, Call.pure_ok_iff] at h
      obtain ⟨rfl, rfl⟩ := h
      refine ⟨⟨#[{ name, defines := defineList defines, kernel := found }], by
        simp [withKernels]⟩, fun i compiled hi => ?_,
        { name, defines := defineList defines, kernel := found }, by simp, rfl⟩
      simp only [Array.getElem?_push] at hi
      split at hi
      · cases hi
        exact hk
      · exact sound i compiled hi

theorem kernel_succeeds {b : Backend α} {name : String} {k : HostKernel}
    (hr : b.registry.contains name) (hk : HostKernel.ofName? name = some k) (defines : String) :
    ∃ id c, kernel name defines b = .ok id c := by
  rw [kernel]
  simp only [Call.get_bind_ok_iff]
  cases hf : b.kernels.findIdx? fun k => k.name == name && k.defines == defineList defines with
  | some index => exact ⟨_, _, Call.pure_ok_iff.mpr ⟨rfl, rfl⟩⟩
  | none =>
    simp only [hr, hk]
    exact ⟨_, _, Call.set_bind_ok_iff.mpr (Call.pure_ok_iff.mpr ⟨rfl, rfl⟩)⟩

/-- What the check of a dispatch asks for. -/
structure Records (b : Backend α) (d : Dispatch α) : Prop where
  kernel : d.kernel.index < b.kernels.size
  buffers : ∀ h, .buffer h ∈ d.args → ∃ buffer, b.buffers[h.index]? = some buffer
  launch : d.launch.IsWhole

theorem forIn_ok {β ε : Type} {f : β → PUnit → Except ε (ForInStep PUnit)} {l : List β}
    (h : ∀ x ∈ l, f x ⟨⟩ = .ok (.yield ⟨⟩)) : forIn l PUnit.unit f = .ok ⟨⟩ := by
  induction l with
  | nil => rfl
  | cons x l ih =>
    rw [List.forIn_cons, h x List.mem_cons_self]
    exact ih fun y hy => h y (List.mem_cons_of_mem _ hy)

theorem check_ok {b : Backend α} {d : Dispatch α} (h : b.Records d) : b.check d = .ok () := by
  have hk : ¬b.kernels.size ≤ d.kernel.index := Nat.not_le.mpr h.kernel
  simp only [check, hk, if_false, h.launch, not_true_eq_false]
  rw [Except.bind_ok_iff]
  refine ⟨_, forIn_ok fun arg harg => ?_, rfl⟩
  cases arg with
  | buffer k =>
    obtain ⟨buffer, hb⟩ := h.buffers k harg
    simp only [Backend.buffer, hb]
    rfl
  | scalar s => rfl
  | blob bytes => rfl

theorem enqueue_ok_iff {b c : Backend α} {d : Dispatch α} {pass : Pass} {position : Nat} :
    enqueue d pass b = .ok position c ↔
      (∀ index, d.increment = some index → d.args[index]?.any (·.isScalar)) ∧
        (b.validation → b.check d = .ok ()) ∧ position = (b.dispatches.get pass).size ∧
        c = { b with dispatches := b.dispatches.modify pass (·.push d) } := by
  have hrest : (do
      let b ← get
      if b.validation then ofExcept (b.check d)
      set { b with dispatches := b.dispatches.modify pass (·.push d) }
      return (b.dispatches.get pass).size : Call α Nat) b = .ok position c ↔
        (b.validation → b.check d = .ok ()) ∧ position = (b.dispatches.get pass).size ∧
        c = { b with dispatches := b.dispatches.modify pass (·.push d) } := by
    rw [Call.get_bind_ok_iff]
    by_cases hv : b.validation
    · simp only [hv, if_true, Call.ofExcept_bind_ok_iff, Call.set_bind_ok_iff, Call.pure_ok_iff]
      constructor
      · rintro ⟨_, hc, rfl, rfl⟩
        exact ⟨fun _ => hc, rfl, rfl⟩
      · rintro ⟨hc, rfl, rfl⟩
        exact ⟨_, hc trivial, rfl, rfl⟩
    · simp only [hv, Bool.false_eq_true, if_false, Call.set_bind_ok_iff, Call.pure_ok_iff]
      constructor
      · rintro ⟨rfl, rfl⟩
        exact ⟨fun hf => hf.elim, rfl, rfl⟩
      · rintro ⟨-, rfl, rfl⟩
        exact ⟨rfl, rfl⟩
  unfold enqueue
  cases hi : d.increment with
  | some index =>
    simp only [Option.some.injEq, forall_eq', Call.ite_throw_ok_iff]
    exact and_congr_right fun _ => hrest
  | none =>
    simp only [reduceCtorEq, false_implies, implies_true, true_and]
    exact hrest

theorem submit_ok {b c : Backend α} {r : Request α} {pass : Pass} {position : Nat}
    (sound : b.Sound) (h : submit r pass b = .ok position c) :
    ∃ ks d, c = { b.withKernels ks with dispatches := b.dispatches.modify pass (·.push d) } ∧
      c.Sound ∧ c.Implements r d := by
  simp only [submit, Call.bind_ok_iff] at h
  obtain ⟨id, m, hk, he⟩ := h
  obtain ⟨⟨ks, rfl⟩, hs, compiled, hget, hname⟩ := kernel_ok sound hk
  obtain ⟨-, -, -, rfl⟩ := enqueue_ok_iff.mp he
  exact ⟨ks, _, rfl, hs, ⟨compiled, hget, hname⟩, rfl, rfl, rfl⟩

/-- What a request needs to be submitted. -/
structure Accepts (b : Backend α) (r : Request α) : Prop where
  kernel : b.registry.contains r.kernel ∧ ∃ k, HostKernel.ofName? r.kernel = some k
  buffers : ∀ h, .buffer h ∈ r.args → ∃ buffer, b.buffers[h.index]? = some buffer
  launch : r.launch.IsWhole
  increment : ∀ index, r.increment = some index → r.args[index]?.any (·.isScalar)

theorem submit_succeeds {b : Backend α} {r : Request α} (sound : b.Sound) (h : b.Accepts r)
    (pass : Pass) : ∃ position c, submit r pass b = .ok position c := by
  obtain ⟨hr, k, hn⟩ := h.kernel
  obtain ⟨id, m, hk⟩ := kernel_succeeds hr hn r.defines
  obtain ⟨⟨ks, rfl⟩, -, compiled, hget, -⟩ := kernel_ok sound hk
  refine ⟨_, _, Call.bind_ok_iff.mpr ⟨id, _, hk, enqueue_ok_iff.mpr ⟨h.increment, fun _ => ?_,
    rfl, rfl⟩⟩⟩
  exact check_ok ⟨(Array.getElem?_eq_some_iff.mp hget).1, h.buffers, h.launch⟩

end Backend

end Backprop
