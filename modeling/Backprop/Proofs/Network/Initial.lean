import Mathlib
import Backprop.Network.Compile
import Backprop.Proofs.Backend.Transfer
import Backprop.Proofs.Network.Schedule

/-! The last stages of a compilation: updates are recorded, all storage is cleared, and first
values are written into parameters. -/

namespace Backprop

variable {α β : Type}

theorem Backend.Resolves.window_whole {b : Backend α} {h : BufferId} {w : Window}
    (hr : b.Resolves h) (hw : b.window? h = some w) : b.window h 0 (4 * w.count) = .ok w := by
  obtain ⟨buffer, hb, ho, hl, hholds⟩ := hr
  rw [Backend.window?, hb, Option.map_some, Option.some.injEq] at hw
  subst hw
  refine Backend.window_ok_iff.mpr ⟨buffer, hb, fun _ => ?_, ho, by omega, ?_, hholds⟩
  · simp only
    omega
  · simp

namespace Network

variable {n m : Network α}

/-! ### Calls on the backend, one after the other -/

theorem forM_onBackend_ok {f : β → Backend.Call α PUnit} {R : Backend α → Backend α → Prop}
    (refl : ∀ b, R b b) (trans : ∀ b c d, R b c → R c d → R b d)
    (step : ∀ x b c, f x b = .ok ⟨⟩ c → R b c) {l : List β}
    (h : l.forM (fun x => onBackend (f x)) n = .ok ⟨⟩ m) :
    m = { n with backend := m.backend } ∧ R n.backend m.backend := by
  induction l generalizing n with
  | nil =>
    obtain rfl := Call.forM_nil_ok_iff.mp h
    exact ⟨rfl, refl _⟩
  | cons x l ih =>
    obtain ⟨m₁, hx, hrest⟩ := Call.forM_cons_ok_iff.mp h
    obtain ⟨c, hc, rfl⟩ := onBackend_ok_iff.mp hx
    obtain ⟨hm, hR⟩ := ih hrest
    exact ⟨hm, trans _ _ _ (step x _ _ hc) hR⟩

/-! ### Updates -/

def updatesOf (o : Optimizer α) (t : Tensor) : List (Request α) :=
  match o.requests t with
  | .ok rs => rs
  | .error _ => []

def updates (n : Network α) : List (Request α) :=
  match n.optimizer with
  | none => []
  | some o => (n.tensors.toList.filter (·.kind == .parameter)).flatMap (updatesOf o)

theorem submitUpdates_ok {o : Optimizer α} {l : List Tensor} (sound : n.backend.Sound)
    (h : (l.forM fun t => do discard (submitAll (← ofExcept (o.requests t)) .update)) n =
      .ok ⟨⟩ m) :
    m = { n with backend := m.backend } ∧
      n.backend.Recorded m.backend
        fun pass => if pass = .update then l.flatMap (updatesOf o) else [] := by
  induction l generalizing n with
  | nil =>
    obtain rfl := Call.forM_nil_ok_iff.mp h
    exact ⟨rfl, (Backend.Recorded.refl sound).congr fun p => by simp⟩
  | cons t l ih =>
    obtain ⟨m₁, ht, hrest⟩ := Call.forM_cons_ok_iff.mp h
    simp only [Call.discard_eq, Call.bind_ok_iff, Call.ofExcept_ok_iff, Call.pure_ok_iff] at ht
    obtain ⟨rs, _, ⟨hrs, rfl⟩, positions, _, hsub, -, rfl⟩ := ht
    obtain ⟨hm₁, hrec⟩ := submitAll_ok sound hsub
    obtain ⟨hm, hrec'⟩ := ih hrec.sound hrest
    refine ⟨by rw [hm, hm₁], (hrec.trans hrec').congr fun p => ?_⟩
    by_cases hp : p = .update
    · simp [hp, updatesOf, hrs]
    · simp [hp]

theorem emitUpdates_ok (sound : n.backend.Sound) (h : emitUpdates n = .ok ⟨⟩ m) :
    m = { n with backend := m.backend } ∧
      n.backend.Recorded m.backend fun pass => if pass = .update then n.updates else [] := by
  rw [emitUpdates, Call.get_bind_ok_iff] at h
  obtain ho | ⟨o, ho⟩ : n.optimizer = none ∨ ∃ o, n.optimizer = some o := by
    cases n.optimizer <;> simp
  · simp only [ho] at h
    obtain ⟨-, rfl⟩ := Call.pure_ok_iff.mp h
    refine ⟨rfl, (Backend.Recorded.refl sound).congr fun p => ?_⟩
    simp only [updates, ho, ite_self]
  · simp only [ho] at h
    obtain ⟨hm, hrec⟩ := submitUpdates_ok sound h
    refine ⟨hm, hrec.congr fun p => ?_⟩
    simp only [updates, ho]

/-! ### Clearing -/

variable [Zero α]

theorem clearAll_ok (h : clearAll n = .ok ⟨⟩ m) :
    m = { n with backend := m.backend } ∧ n.backend.Wiped m.backend := by
  rw [clearAll, Call.get_bind_ok_iff] at h
  refine forM_onBackend_ok Backend.Wiped.refl (fun b c d => Backend.Wiped.trans)
    (fun t b c hc => ?_) h
  simp only [Tensor.clearAll, Call.bind_ok_iff] at hc
  obtain ⟨⟨⟩, b₁, hf, hb⟩ := hc
  exact (Storage.zero_wiped hf).trans (Storage.zero_wiped hb)

end Network

/-! ### First values -/

namespace Network

variable [Scalar α] {n m : Network α}

theorem drawInitial_ok_iff {target : TensorId} {init : Initializer} :
    drawInitial target init n = .ok ⟨⟩ m ↔ ∃ t k values g c,
      n.tensors[target.index]? = some t ∧ t.forwardBuffer .current = .ok k ∧
      init.sample t.shape n.generator = .ok (values, g) ∧
      Backend.write k 0 (values.map Scalar.ofWord) n.backend = .ok ⟨⟩ c ∧
      m = { n with backend := c, generator := g } := by
  simp only [drawInitial, Call.bind_ok_iff, Call.get_ok_iff, Call.ofExcept_ok_iff, tensor_ok_iff,
    Call.set_ok_iff, onBackend_ok_iff]
  constructor
  · rintro ⟨_, _, ⟨rfl, rfl⟩, t, _, ⟨ht, rfl⟩, ⟨values, g⟩, _, ⟨hs, rfl⟩, ⟨⟩, _, rfl, k, _,
      ⟨hk, rfl⟩, c, hc, rfl⟩
    exact ⟨t, k, values, g, c, ht, hk, hs, hc, rfl⟩
  · rintro ⟨t, k, values, g, c, ht, hk, hs, hc, rfl⟩
    exact ⟨n, n, ⟨rfl, rfl⟩, t, n, ⟨ht, rfl⟩, (values, g), n, ⟨hs, rfl⟩, ⟨⟩, _, rfl, k, _,
      ⟨hk, rfl⟩, c, hc, rfl⟩

theorem drawInitial_ok {target : TensorId} {init : Initializer}
    (h : drawInitial target init n = .ok ⟨⟩ m) :
    ∃ t k c, n.tensors[target.index]? = some t ∧ t.forwardBuffer .current = .ok k ∧
      n.backend.Touches c (fun a => ∃ v, n.backend.window? k = some v ∧ a = v.allocation) ∧
      m = { n with backend := c, generator := m.generator } := by
  obtain ⟨t, k, values, g, c, ht, hk, -, hc, rfl⟩ := drawInitial_ok_iff.mp h
  exact ⟨t, k, c, ht, hk, Backend.write_touches hc, rfl⟩

theorem forM_drawInitial_ok {A : Nat → Prop} {l : List (TensorId × Initializer)}
    (targets : ∀ p ∈ l, ∀ t k v, n.tensors[p.1.index]? = some t →
      t.forwardBuffer .current = .ok k → n.backend.window? k = some v → A v.allocation)
    (h : (l.forM fun p => drawInitial p.1 p.2) n = .ok ⟨⟩ m) :
    m = { n with backend := m.backend, generator := m.generator } ∧
      n.backend.Touches m.backend A := by
  induction l generalizing n with
  | nil =>
    obtain rfl := Call.forM_nil_ok_iff.mp h
    exact ⟨rfl, .refl _ _⟩
  | cons p l ih =>
    obtain ⟨m₁, hp, hrest⟩ := Call.forM_cons_ok_iff.mp h
    obtain ⟨t, k, c, ht, hk, htouch, hm₁⟩ := drawInitial_ok hp
    have htouch' : n.backend.Touches m₁.backend A := by
      rw [hm₁]
      refine htouch.mono ?_
      rintro a ⟨v, hv, rfl⟩
      exact targets p List.mem_cons_self t k v ht hk hv
    have htensors : m₁.tensors = n.tensors := by rw [hm₁]
    have hwindows : ∀ j, m₁.backend.window? j = n.backend.window? j :=
      Backend.window?_congr htouch'.buffers
    obtain ⟨hm, htouch''⟩ := ih (fun q hq u j v hu hj hv => targets q (List.mem_cons_of_mem _ hq) u
      j v (htensors ▸ hu) hj (hwindows j ▸ hv)) hrest
    exact ⟨by rw [hm, hm₁], htouch'.trans htouch''⟩

theorem drawInitials_ok {A : Nat → Prop}
    (targets : ∀ p ∈ n.initializers, ∀ t k v, n.tensors[p.1.index]? = some t →
      t.forwardBuffer .current = .ok k → n.backend.window? k = some v → A v.allocation)
    (h : drawInitials n = .ok ⟨⟩ m) :
    m = { n with backend := m.backend, generator := m.generator } ∧
      n.backend.Touches m.backend A := by
  rw [drawInitials, Call.get_bind_ok_iff] at h
  exact forM_drawInitial_ok targets h

end Network

end Backprop
