import Mathlib
import Backprop.Proofs.Backend.Submission

/-! Kernels are compiled when they are first asked for. Whatever calls ask for them, a kernel of a
name and a list of definitions is compiled once, and a handle stands for one such pair; what could
not be compiled is forgotten. -/

namespace Backprop

variable {α : Type}

def CompiledKernel.key (k : CompiledKernel) : String × List String := (k.name, k.defines)

/-- A call that asks for a kernel. -/
inductive KernelCall (α : Type) where
  | fetch (name defines : String)
  | submit (r : Request α) (pass : Pass)

namespace KernelCall

def name : KernelCall α → String
  | fetch name _ => name
  | submit r _ => r.kernel

def defines : KernelCall α → String
  | fetch _ defines => defines
  | submit r _ => r.defines

def key (x : KernelCall α) : String × List String := (x.name, Backend.defineList x.defines)

def issued (x : KernelCall α) (b : Backend α) : Option KernelId :=
  Call.answer? (Backend.kernel x.name x.defines b)

/-- The backend after a call, whether or not that succeeds. -/
def perform : KernelCall α → Backend α → Backend α
  | fetch name defines => Call.after (Backend.kernel name defines)
  | submit r pass => Call.after (Backend.submit r pass)

end KernelCall

namespace Backend

variable {b c : Backend α} {x : KernelCall α} {h : KernelId}

def keys (b : Backend α) : List (String × List String) := b.kernels.toList.map (·.key)

/-- Whether the device is asked to compile the kernel that a call asks for. -/
def attempts (b : Backend α) (x : KernelCall α) : Bool :=
  x.key ∉ b.keys && b.registry.contains x.name

/-- Whether the device compiles the kernel that a call asks for. -/
def compiles (b : Backend α) (x : KernelCall α) : Bool :=
  b.attempts x && (HostKernel.ofName? x.name).isSome

/-- What a call meets that obtains no kernel. -/
def refusal (b : Backend α) (x : KernelCall α) : Error :=
  if b.registry.contains x.name then .noHostKernel x.name else .noKernelSource x.name

def afterCalls (b : Backend α) (calls : List (KernelCall α)) : Backend α :=
  calls.foldl (fun b x => x.perform b) b

def compilations : Backend α → List (KernelCall α) → List (String × List String)
  | _, [] => []
  | b, x :: calls => (if b.compiles x then [x.key] else []) ++ compilations (x.perform b) calls

def obtained : Backend α → List (KernelCall α) → List (String × List String)
  | _, [] => []
  | b, x :: calls => (if (x.issued b).isSome then [x.key] else []) ++ obtained (x.perform b) calls

/-! ### One call -/

theorem getElem?_keys (b : Backend α) (i : Nat) : b.keys[i]? = b.kernels[i]?.map (·.key) := by
  rw [keys, List.getElem?_map, Array.getElem?_toList]

theorem length_keys (b : Backend α) : b.keys.length = b.kernels.size := by
  rw [keys, List.length_map, Array.length_toList]

theorem keys_push (b : Backend α) (k : CompiledKernel) :
    keys { b with kernels := b.kernels.push k } = b.keys ++ [k.key] := by
  simp [keys]

theorem attempts_eq_false (h : x.key ∈ b.keys) : b.attempts x = false := by
  simp [attempts, h]

theorem kernel_cases (x : KernelCall α) (b : Backend α) :
    (∃ index, b.keys[index]? = some x.key ∧ kernel x.name x.defines b = .ok ⟨index⟩ b) ∨
    (b.compiles x ∧ ∃ k : CompiledKernel, k.key = x.key ∧
      kernel x.name x.defines b =
        .ok ⟨b.kernels.size⟩ { b with kernels := b.kernels.push k }) ∨
    (x.key ∉ b.keys ∧ ¬b.compiles x ∧ kernel x.name x.defines b = .error (b.refusal x) b) := by
  simp only [kernel, Call.get_bind]
  cases hf : b.kernels.findIdx? fun k => k.name == x.name && k.defines == defineList x.defines with
  | some index =>
    obtain ⟨hlt, hkey, -⟩ := Array.findIdx?_eq_some_iff_getElem.mp hf
    simp only [Bool.and_eq_true, beq_iff_eq] at hkey
    refine .inl ⟨index, ?_, rfl⟩
    rw [getElem?_keys, Array.getElem?_eq_getElem hlt, Option.map_some, CompiledKernel.key, hkey.1,
      hkey.2, KernelCall.key]
  | none =>
    have habsent : x.key ∉ b.keys := by
      intro hmem
      obtain ⟨k, hk, hkey⟩ := List.mem_map.mp hmem
      have hne := Array.findIdx?_eq_none_iff.mp hf k (Array.mem_toList_iff.mp hk)
      rw [CompiledKernel.key, KernelCall.key, Prod.mk.injEq] at hkey
      simp [hkey.1, hkey.2] at hne
    by_cases hr : b.registry.contains x.name
    · cases hk : HostKernel.ofName? x.name with
      | some k =>
        have hcompiles : b.compiles x := by simp [compiles, attempts, habsent, hr, hk]
        exact .inr (.inl ⟨hcompiles, ⟨x.name, defineList x.defines, k⟩, rfl,
          by simp only [hr]; rfl⟩)
      | none =>
        have hcompiles : ¬b.compiles x := by simp [compiles, hk]
        exact .inr (.inr ⟨habsent, hcompiles, by simp only [hr, refusal]; rfl⟩)
    · have hcompiles : ¬b.compiles x := by simp [compiles, attempts, hr]
      exact .inr (.inr ⟨habsent, hcompiles, by simp only [hr, refusal]; rfl⟩)

theorem enqueue_atomic (d : Dispatch α) (pass : Pass) : Call.Atomic (enqueue d pass) := by
  have hrest : Call.Atomic (do
      let b ← get
      if b.validation then ofExcept (b.check d)
      set { b with dispatches := b.dispatches.modify pass (·.push d) }
      return (b.dispatches.get pass).size : Call α Nat) := by
    intro b c e h
    rw [Call.get_bind] at h
    by_cases hv : b.validation
    · rw [if_pos hv, Call.ofExcept_bind] at h
      cases hc : b.check d with
      | error e' =>
        rw [hc] at h
        cases h
        rfl
      | ok u =>
        rw [hc] at h
        cases h
    · rw [if_neg hv] at h
      cases h
  unfold enqueue
  cases d.increment with
  | some index =>
    intro b c e h
    by_cases hs : d.args[index]?.any (·.isScalar)
    · simp only [hs, if_true] at h
      exact hrest b c e h
    · simp only [hs] at h
      cases h
      rfl
  | none => exact hrest

theorem submit_after (r : Request α) (pass : Pass) (b : Backend α) :
    ∃ lists, Call.after (submit r pass) b =
      { Call.after (kernel r.kernel r.defines) b with dispatches := lists } := by
  cases hk : kernel r.kernel r.defines b with
  | error e m =>
    have hsubmit : submit r pass b = .error e m := Call.bind_error_iff.mpr (.inl hk)
    exact ⟨m.dispatches, by simp only [Call.after, hk, hsubmit]⟩
  | ok id m =>
    cases he : enqueue ⟨id, r.args, r.launch, r.increment⟩ pass m with
    | error e c =>
      have hsubmit : submit r pass b = .error e c :=
        Call.bind_error_iff.mpr (.inr ⟨id, m, hk, he⟩)
      exact ⟨m.dispatches, by simp only [Call.after, hk, hsubmit, enqueue_atomic _ _ _ _ _ he]⟩
    | ok position c =>
      have hsubmit : submit r pass b = .ok position c := Call.bind_ok_iff.mpr ⟨id, m, hk, he⟩
      obtain ⟨-, -, -, rfl⟩ := enqueue_ok_iff.mp he
      exact ⟨m.dispatches.modify pass (·.push ⟨id, r.args, r.launch, r.increment⟩),
        by simp only [Call.after, hk, hsubmit]⟩

theorem perform_after (x : KernelCall α) (b : Backend α) :
    ∃ lists, x.perform b = { Call.after (kernel x.name x.defines) b with dispatches := lists } := by
  cases x with
  | fetch name defines => exact ⟨_, rfl⟩
  | submit r pass => exact submit_after r pass b

theorem keys_perform (x : KernelCall α) (b : Backend α) :
    (x.perform b).keys = b.keys ++ if b.compiles x then [x.key] else [] := by
  obtain ⟨lists, hx⟩ := perform_after x b
  have hkeys : (x.perform b).keys = (Call.after (kernel x.name x.defines) b).keys := by
    rw [hx]
    rfl
  rw [hkeys]
  obtain ⟨index, hkey, hk⟩ | ⟨hcompiles, k, hkey, hk⟩ | ⟨-, hcompiles, hk⟩ := kernel_cases x b
  · simp [Call.after, hk, compiles, attempts_eq_false (List.mem_of_getElem? hkey)]
  · simp only [Call.after, hk, hcompiles, if_true, keys_push, hkey]
  · simp [Call.after, hk, hcompiles]

theorem registry_perform (x : KernelCall α) (b : Backend α) :
    (x.perform b).registry = b.registry := by
  obtain ⟨lists, hx⟩ := perform_after x b
  rw [hx]
  obtain ⟨_, -, hk⟩ | ⟨-, _, -, hk⟩ | ⟨-, -, hk⟩ := kernel_cases x b <;>
    simp only [Call.after, hk]

theorem getElem?_keys_of_issued (hx : x.issued b = some h) :
    (x.perform b).keys[h.index]? = some x.key := by
  rw [keys_perform]
  rw [KernelCall.issued] at hx
  obtain ⟨index, hkey, hk⟩ | ⟨hcompiles, k, hkey, hk⟩ | ⟨-, -, hk⟩ := kernel_cases x b
  · rw [hk] at hx
    cases hx
    rw [List.getElem?_append_left (List.getElem?_eq_some_iff.mp hkey).1]
    exact hkey
  · rw [hk] at hx
    cases hx
    rw [if_pos hcompiles, ← length_keys, List.getElem?_concat_length]
  · rw [hk] at hx
    cases hx

theorem issued_isSome_iff : (x.issued b).isSome ↔ x.key ∈ b.keys ∨ b.compiles x := by
  rw [KernelCall.issued]
  obtain ⟨index, hkey, hk⟩ | ⟨hcompiles, k, hkey, hk⟩ | ⟨habsent, hcompiles, hk⟩ := kernel_cases x b
  · simp [hk, Call.answer?, List.mem_of_getElem? hkey]
  · simp [hk, Call.answer?, hcompiles]
  · simp [hk, Call.answer?, habsent, hcompiles]

theorem kernel_of_issued_none (hx : x.issued b = none) :
    kernel x.name x.defines b = .error (b.refusal x) b := by
  rw [KernelCall.issued] at hx
  obtain ⟨_, -, hk⟩ | ⟨-, _, -, hk⟩ | ⟨-, -, hk⟩ := kernel_cases x b
  · rw [hk] at hx
    cases hx
  · rw [hk] at hx
    cases hx
  · exact hk

theorem perform_of_issued_none (hx : x.issued b = none) : x.perform b = b := by
  have hk := kernel_of_issued_none hx
  cases x with
  | fetch name defines => exact Call.after_of_error hk
  | submit r pass => exact Call.after_of_error (Call.bind_error_iff.mpr (.inl hk))

/-! ### Some calls -/

theorem afterCalls_append (b : Backend α) (calls more : List (KernelCall α)) :
    b.afterCalls (calls ++ more) = (b.afterCalls calls).afterCalls more :=
  List.foldl_append

theorem registry_afterCalls (b : Backend α) (calls : List (KernelCall α)) :
    (b.afterCalls calls).registry = b.registry := by
  induction calls generalizing b with
  | nil => rfl
  | cons x calls ih => exact (ih (x.perform b)).trans (registry_perform x b)

theorem keys_afterCalls (b : Backend α) (calls : List (KernelCall α)) :
    (b.afterCalls calls).keys = b.keys ++ compilations b calls := by
  induction calls generalizing b with
  | nil => exact (List.append_nil _).symm
  | cons x calls ih =>
    calc ((x.perform b).afterCalls calls).keys
      _ = (x.perform b).keys ++ compilations (x.perform b) calls := ih _
      _ = b.keys ++ compilations b (x :: calls) := by
        rw [keys_perform, compilations, List.append_assoc]

/-- The compiled kernels are known by different names or definitions, and the device compiles
each of them. -/
structure Coherent (b : Backend α) : Prop where
  nodup : b.keys.Nodup
  compilable : ∀ key ∈ b.keys, b.registry.contains key.1 ∧ (HostKernel.ofName? key.1).isSome

theorem Coherent.perform (hb : b.Coherent) (x : KernelCall α) : (x.perform b).Coherent := by
  have hkeys := keys_perform x b
  by_cases hx : b.compiles x
  · rw [if_pos hx] at hkeys
    simp only [compiles, attempts, Bool.and_eq_true, decide_eq_true_eq] at hx
    constructor
    · rw [hkeys, ← List.concat_eq_append]
      exact hb.nodup.concat hx.1.1
    · rw [hkeys, registry_perform]
      intro key hkey
      obtain hkey | rfl := (List.mem_append.trans (or_congr_right List.mem_singleton)).mp hkey
      · exact hb.compilable key hkey
      · exact ⟨hx.1.2, hx.2⟩
  · rw [if_neg hx, List.append_nil] at hkeys
    exact ⟨hkeys ▸ hb.nodup, by rw [hkeys, registry_perform]; exact hb.compilable⟩

theorem Coherent.afterCalls (hb : b.Coherent) (calls : List (KernelCall α)) :
    (b.afterCalls calls).Coherent := by
  induction calls generalizing b with
  | nil => exact hb
  | cons x calls ih => exact ih (hb.perform x)

theorem mem_keys_perform {key : String × List String} :
    key ∈ (x.perform b).keys ↔ key ∈ b.keys ∨ (x.issued b).isSome ∧ key = x.key := by
  rw [keys_perform, issued_isSome_iff]
  by_cases hx : b.compiles x
  · simp [hx]
  · rw [if_neg hx, List.append_nil]
    refine ⟨.inl, ?_⟩
    rintro (hmem | ⟨hmem | hx', rfl⟩)
    · exact hmem
    · exact hmem
    · exact absurd hx' hx

/-- There are compiled kernels for what was obtained, and for nothing else. -/
theorem mem_keys_afterCalls {key : String × List String} {calls : List (KernelCall α)} :
    key ∈ (b.afterCalls calls).keys ↔ key ∈ b.keys ∨ key ∈ obtained b calls := by
  induction calls generalizing b with
  | nil => simp [Backend.afterCalls, obtained]
  | cons x calls ih =>
    have hx : key ∈ (if (x.issued b).isSome then [x.key] else []) ↔
        (x.issued b).isSome ∧ key = x.key := by split <;> simp [*]
    change key ∈ ((x.perform b).afterCalls calls).keys ↔ _
    rw [ih, mem_keys_perform, obtained, List.mem_append, hx, or_assoc]

/-- The call at a position of some calls, and the handle that it obtains there. -/
def Issues (b : Backend α) (calls : List (KernelCall α)) (i : Nat) (x : KernelCall α)
    (h : KernelId) : Prop :=
  calls[i]? = some x ∧ x.issued (b.afterCalls (calls.take i)) = some h

theorem Issues.getElem?_keys {calls : List (KernelCall α)} {i : Nat}
    (hi : b.Issues calls i x h) : (b.afterCalls calls).keys[h.index]? = some x.key := by
  obtain ⟨hcall, hx⟩ := hi
  have hkey := getElem?_keys_of_issued hx
  have hsplit : calls = calls.take i ++ x :: calls.drop (i + 1) := by
    obtain ⟨hlt, rfl⟩ := List.getElem?_eq_some_iff.mp hcall
    rw [← List.drop_eq_getElem_cons hlt, List.take_append_drop]
  rw [hsplit, afterCalls_append]
  change ((x.perform (b.afterCalls (calls.take i))).afterCalls _).keys[h.index]? = _
  rw [keys_afterCalls, List.getElem?_append_left (List.getElem?_eq_some_iff.mp hkey).1, hkey]

theorem kernelName?_eq (b : Backend α) (h : KernelId) :
    b.kernelName? h = b.keys[h.index]?.map (·.1) := by
  rw [Backend.getElem?_keys, Option.map_map]
  rfl

theorem Coherent.issued_eq_none_iff (hb : b.Coherent) :
    x.issued b = none ↔
      ¬(b.registry.contains x.name ∧ (HostKernel.ofName? x.name).isSome) := by
  rw [← Option.not_isSome_iff_eq_none, issued_isSome_iff]
  refine not_congr ⟨?_, fun h => ?_⟩
  · rintro (hmem | hx)
    · exact hb.compilable _ hmem
    · simp only [compiles, attempts, Bool.and_eq_true, decide_eq_true_eq] at hx
      exact ⟨hx.1.2, hx.2⟩
  · by_cases hmem : x.key ∈ b.keys
    · exact .inl hmem
    · exact .inr (by simp [compiles, attempts, hmem, h.1, h.2])

theorem dispatches_after_kernel (x : KernelCall α) (b : Backend α) :
    (Call.after (kernel x.name x.defines) b).dispatches = b.dispatches := by
  obtain ⟨_, -, hk⟩ | ⟨-, _, -, hk⟩ | ⟨-, -, hk⟩ := kernel_cases x b <;>
    simp only [Call.after, hk]

theorem dispatches_of_submit_error {r : Request α} {pass : Pass} {e : Error}
    (hs : submit r pass b = .error e c) : c.dispatches = b.dispatches := by
  have hkernel := dispatches_after_kernel (.submit r pass) b
  obtain hk | ⟨id, m, hk, he⟩ := Call.bind_error_iff.mp hs
  · rwa [← Call.after_of_error hk]
  · rwa [enqueue_atomic _ _ _ _ _ he, ← Call.after_of_ok hk]

theorem dispatches_of_submit_ok {r : Request α} {pass : Pass} {position : Nat}
    (hs : submit r pass b = .ok position c) :
    ∃ h, (KernelCall.submit r pass).issued b = some h ∧
      position = (b.dispatches.get pass).size ∧
      c.dispatches = b.dispatches.modify pass (·.push ⟨h, r.args, r.launch, r.increment⟩) := by
  have hkernel := dispatches_after_kernel (.submit r pass) b
  obtain ⟨id, m, hk, he⟩ := Call.bind_ok_iff.mp hs
  obtain ⟨-, -, hposition, rfl⟩ := enqueue_ok_iff.mp he
  have hm : m.dispatches = b.dispatches := by rwa [← Call.after_of_ok hk]
  exact ⟨id, by rw [KernelCall.issued]; exact congrArg Call.answer? hk, hm ▸ hposition, by rw [hm]⟩

/-- How the backend keeps kernels over some calls. -/
structure CachesKernels (b : Backend α) (calls : List (KernelCall α)) : Prop where
  /-- Two calls obtain one handle for one name and one list of definitions. -/
  handle_eq_iff : ∀ i j x y h k, b.Issues calls i x h → b.Issues calls j y k →
    (h = k ↔ x.name = y.name ∧ defineList x.defines = defineList y.defines)
  /-- The device has compiled once what was obtained, and nothing else. -/
  count_compilations : ∀ key,
    (compilations b calls).count key = if key ∈ obtained b calls then 1 else 0
  keys : (b.afterCalls calls).keys = compilations b calls
  size : (b.afterCalls calls).kernels.size = (obtained b calls).dedup.length
  name : ∀ i x h, b.Issues calls i x h → (b.afterCalls calls).kernelName? h = some x.name
  /-- The calls that obtain nothing now, and what they meet. -/
  refused : ∀ x : KernelCall α, x.issued (b.afterCalls calls) = none ↔
    ¬(b.registry.contains x.name ∧ (HostKernel.ofName? x.name).isSome)
  error : ∀ x : KernelCall α, x.issued (b.afterCalls calls) = none →
    kernel x.name x.defines (b.afterCalls calls) = .error (b.refusal x) (b.afterCalls calls)
  unchanged : ∀ x : KernelCall α, x.issued (b.afterCalls calls) = none →
    x.perform (b.afterCalls calls) = b.afterCalls calls
  /-- Whether such a call has the device compile depends on the sources alone, not on what
  was asked for before. -/
  retried : ∀ x : KernelCall α, x.issued (b.afterCalls calls) = none → ∀ registry,
    { b.afterCalls calls with registry }.attempts x = registry.contains x.name
  failed : ∀ (r : Request α) pass e c, submit r pass (b.afterCalls calls) = .error e c →
    c.dispatches = (b.afterCalls calls).dispatches
  submitted : ∀ (r : Request α) pass position c,
    submit r pass (b.afterCalls calls) = .ok position c →
    ∃ h, (KernelCall.submit r pass).issued (b.afterCalls calls) = some h ∧
      position = ((b.afterCalls calls).dispatches.get pass).size ∧
      c.dispatches = (b.afterCalls calls).dispatches.modify pass
        (·.push ⟨h, r.args, r.launch, r.increment⟩)

/-- Kernels are compiled once for each name and list of definitions, and what fails is
forgotten. -/
theorem kernels_cached {b : Backend α} (fresh : b.kernels = #[]) (calls : List (KernelCall α)) :
    b.CachesKernels calls := by
  have hnone : b.keys = [] := by simp [Backend.keys, fresh]
  have hb : b.Coherent := ⟨by simp [hnone], by simp [hnone]⟩
  have hlast := hb.afterCalls calls
  have hregistry := registry_afterCalls b calls
  have hkeys : (b.afterCalls calls).keys = compilations b calls := by
    rw [keys_afterCalls, hnone, List.nil_append]
  have hmem : ∀ key, key ∈ compilations b calls ↔ key ∈ obtained b calls := fun key => by
    rw [← hkeys, mem_keys_afterCalls, hnone]
    simp
  have hnodup : (compilations b calls).Nodup := hkeys ▸ hlast.nodup
  have habsent : ∀ x : KernelCall α, x.issued (b.afterCalls calls) = none →
      x.key ∉ (b.afterCalls calls).keys := fun x hx hin => by
    have hsome := issued_isSome_iff.mpr (.inl hin)
    simp [hx] at hsome
  constructor
  case handle_eq_iff =>
    intro i j x y h k hi hj
    have hx := hi.getElem?_keys
    have hy := hj.getElem?_keys
    rw [← Prod.mk.injEq]
    change _ ↔ x.key = y.key
    constructor
    · rintro rfl
      exact Option.some.inj (hx.symm.trans hy)
    · intro hkey
      obtain ⟨hlt, hx⟩ := List.getElem?_eq_some_iff.mp hx
      obtain ⟨hlt', hy⟩ := List.getElem?_eq_some_iff.mp hy
      have hindex := (hlast.nodup.getElem_inj_iff).mp (hx.trans (hkey.trans hy.symm))
      cases h
      cases k
      exact congrArg KernelId.mk hindex
  case count_compilations =>
    intro key
    rw [hnodup.count]
    exact if_congr (hmem key) rfl rfl
  case keys => exact hkeys
  case size =>
    rw [← length_keys, hkeys]
    refine List.Perm.length_eq ((List.perm_ext_iff_of_nodup hnodup (List.nodup_dedup _)).mpr ?_)
    intro key
    rw [hmem, List.mem_dedup]
  case name =>
    intro i x h hi
    rw [kernelName?_eq, hi.getElem?_keys]
    rfl
  case refused =>
    intro x
    rw [hlast.issued_eq_none_iff, hregistry]
  case error =>
    intro x hx
    rw [kernel_of_issued_none hx, refusal, refusal, hregistry]
  case unchanged => exact fun x hx => perform_of_issued_none hx
  case retried =>
    intro x hx registry
    have hout : x.key ∉ Backend.keys { b.afterCalls calls with registry } := habsent x hx
    simp [attempts, hout]
  case failed => exact fun r pass e c hs => dispatches_of_submit_error hs
  case submitted => exact fun r pass position c hs => dispatches_of_submit_ok hs

def unusedSource : Backend Binary32 where
  device := .standard
  registry := ⟨[("ReLU", ""), ("Cast", "")]⟩

def blankCalls : List (KernelCall Binary32) :=
  [.fetch "ReLU" "", .fetch "ReLU" " \t", .fetch "Cast" "", .fetch "Tanh" "",
    .submit ⟨"ReLU", " FAST ", [.buffer ⟨0⟩], .single, none⟩ .forward]

/-- The submission compiles its kernel and then fails, for want of its buffer. -/
theorem blankCalls_cached : unusedSource.CachesKernels blankCalls ∧
    compilations unusedSource blankCalls = [("ReLU", []), ("ReLU", ["FAST"])] ∧
    ((unusedSource.afterCalls blankCalls).dispatches.get .forward).size = 0 :=
  ⟨kernels_cached rfl blankCalls, by decide +kernel, by decide +kernel⟩

end Backend

end Backprop
