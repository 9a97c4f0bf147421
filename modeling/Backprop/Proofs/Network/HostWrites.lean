import Mathlib
import Backprop.Network.Run
import Backprop.Proofs.Network.Graph

/-! What the host writes into a compiled network, and what it leaves alone. -/

namespace Backprop

variable {α : Type}

namespace Network

/-- Values for a tensor: of one timestep, or of the first timesteps in one sequence. -/
inductive HostWrite (α : Type) where
  | tensor (id : TensorId) (timestep : Nat) (data : Array α)
  | sequence (id : TensorId) (data : Array α) (steps : Nat)

namespace HostWrite

def target : HostWrite α → TensorId
  | tensor id _ _ | sequence id _ _ => id

def perform : HostWrite α → Network α → Network α
  | tensor id timestep data => Call.after (writeTensor id timestep data)
  | sequence id data steps => Call.after (writeSequence id data steps)

end HostWrite

/-- A tensor whose values come from the host. -/
def IsHeld (n : Network α) (id : TensorId) : Prop :=
  ∃ t, n.tensor id = .ok t ∧ (t.kind = .input ∨ t.kind = .recurrent ∨ t.kind = .parameter)

instance (n : Network α) (id : TensorId) : Decidable (n.IsHeld id) :=
  match h : n.tensor id with
  | .ok t => decidable_of_iff (t.kind = .input ∨ t.kind = .recurrent ∨ t.kind = .parameter)
      ⟨fun hk => ⟨t, h, hk⟩, fun ⟨u, hu, hk⟩ => by
        rw [h] at hu
        cases hu
        exact hk⟩
  | .error e => isFalse fun ⟨u, hu, _⟩ => by
      rw [h] at hu
      cases hu

/-- What becomes of a network by writes to inputs, states and parameters. -/
inductive HostWritten (start : Network α) : Network α → Prop
  | start : HostWritten start start
  | write {n : Network α} (w : HostWrite α) (held : n.IsHeld w.target) (h : HostWritten start n) :
      HostWritten start (w.perform n)

def Altered (m : Network α) (A : Nat → Prop) (n : Network α) : Prop :=
  n = { m with backend := n.backend } ∧ m.backend.Touches n.backend A

section

variable {m n : Network α} {A : Nat → Prop}

theorem keeps_write {h : BufferId} {data : Array α}
    (target : ∀ w, m.backend.window? h = some w → A w.allocation) :
    Call.Keeps (m.Altered A) (onBackend (Backend.write h 0 data)) fun _ => True := by
  rintro n ⟨hn, ht⟩
  refine ⟨Call.after_induct ⟨hn, ht⟩ (fun e n' he => ?_) fun _ n' hok => ?_, fun _ _ _ => trivial⟩
  · unfold onBackend at he
    cases hc : Backend.write h 0 data n.backend with
    | ok u c => simp [hc] at he
    | error e' c =>
      simp only [hc, EStateM.Result.error.injEq] at he
      have hsame : c = n.backend := by
        rw [Backend.write, Call.bind_error_iff] at hc
        obtain hc | ⟨b, s, hb, hc⟩ := hc
        · exact (Call.get_error_iff.mp hc).elim
        · obtain ⟨rfl, rfl⟩ := Call.get_ok_iff.mp hb
          simp only [Call.bind_error_iff, Call.ofExcept_error_iff, Call.ofExcept_ok_iff,
            Call.set_error_iff, and_false, exists_false, or_false] at hc
          exact hc.2.symm
      rw [← he.2, hsame]
  · obtain ⟨c, hc, rfl⟩ := onBackend_ok_iff.mp hok
    refine ⟨by rw [hn], ht.trans ((Backend.write_touches hc).mono ?_)⟩
    rintro a ⟨v, hv, rfl⟩
    rw [Backend.window?_congr ht.buffers] at hv
    exact target v hv

theorem keeps_requireCompiled {P : Network α → Prop} :
    Call.Keeps P requireCompiled fun _ => True := by
  refine Call.Keeps.get.bind fun n _ => ?_
  split
  · exact .throw
  · exact .pure trivial

theorem Altered.tensor (hn : m.Altered A n) {id : TensorId} {t : Tensor}
    (ht : n.tensor id = .ok t) : m.tensors[id.index]? = some t := by
  rwa [tensor_ok_iff, hn.1] at ht

theorem keeps_perform (w : HostWrite α)
    (reach : ∀ t, m.tensors[w.target.index]? = some t → ∀ timestep k,
      forwardSlot t timestep = .ok k → ∀ v, m.backend.window? k = some v → A v.allocation)
    (hn : m.Altered A n) : m.Altered A (w.perform n) := by
  cases w with
  | tensor id timestep data =>
    have hkeeps : Call.Keeps (m.Altered A) (writeTensor id timestep data) fun _ => True := by
      refine keeps_requireCompiled.bind fun _ _ => Call.Keeps.get.bind fun n hn => ?_
      refine (Call.Keeps.ofExcept fun _ => hn.tensor).bind fun t ht => ?_
      refine (Call.Keeps.ofExcept (Q := fun k => forwardSlot t timestep = .ok k)
        fun k hk => hk).bind fun k hk => ?_
      exact keeps_write (reach t ht timestep k hk)
    exact (hkeeps n hn).1
  | sequence id data steps =>
    have hkeeps : Call.Keeps (m.Altered A) (writeSequence id data steps) fun _ => True := by
      refine keeps_requireCompiled.bind fun _ _ => Call.Keeps.get.bind fun n hn => ?_
      refine (Call.Keeps.ofExcept fun _ => hn.tensor).bind fun t ht => ?_
      refine Call.Keeps.throw_ite ((Call.keeps_ofExcept _).bind fun _ _ =>
        .throw_ite (.forM fun timestep _ => ?_))
      refine (Call.Keeps.ofExcept (Q := fun k => forwardSlot t timestep = .ok k)
        fun k hk => hk).bind fun k hk => ?_
      exact .throw_ite ((Call.keeps_ofExcept _).bind fun _ _ =>
        keeps_write (reach t ht timestep k hk))
    exact (hkeeps n hn).1

theorem keeps_writeGradient (id : TensorId) (timestep : Nat) (data : Array α)
    (reach : ∀ t, m.tensors[id.index]? = some t → ∀ k,
      t.backwardBuffer (.timestep timestep) = .ok k → ∀ v, m.backend.window? k = some v →
        A v.allocation) :
    Call.Keeps (m.Altered A) (writeGradient id timestep data) fun _ => True := by
  refine keeps_requireCompiled.bind fun _ _ => Call.Keeps.get.bind fun n hn => ?_
  refine (Call.Keeps.ofExcept fun _ => hn.tensor).bind fun t ht => ?_
  refine (Call.Keeps.ofExcept (Q := fun k => t.backwardBuffer (.timestep timestep) = .ok k)
    fun k hk => hk).bind fun k hk => ?_
  exact keeps_write (reach t ht k hk)

variable [Zero α] {auxiliary : Nat} {allocation : Nat → Side → Nat}

theorem Arranged.forwardSlot (h : Arranged m auxiliary allocation) {id : TensorId} {t : Tensor}
    (ht : m.tensors[id.index]? = some t) {timestep : Nat} {k : BufferId}
    (hk : forwardSlot t timestep = .ok k) {w : Window} (hw : m.backend.window? k = some w) :
    w.allocation = allocation id.index .forward := by
  obtain ⟨floor, hlay⟩ := h.layout
  have hocc := (hlay.stored _ t (Array.getElem?_eq_some_iff.mp ht).1 ht).occupies .forward t.lives_forward
  obtain ⟨stride, -, hslots⟩ := hocc.slots
  have hslot : ∃ j, t.slot .forward j = .ok k := by
    unfold Network.forwardSlot at hk
    by_cases hp : t.kind = .parameter
    · rw [if_pos hp] at hk
      split at hk
      · exact ⟨_, hk⟩
      · cases hk
    · rw [if_neg hp, Tensor.forwardBuffer, if_neg hp] at hk
      exact ⟨_, hk⟩
  obtain ⟨j, hj⟩ := hslot
  rw [(hslots j k (Tensor.slot_ok_iff.mp hj).2).2] at hw
  cases hw
  rfl

/-- Writes by the host reach what the host holds, and nothing else. -/
theorem HostWritten.altered (h : Arranged m auxiliary allocation) (hw : HostWritten m n) :
    m.Altered (fun a => ∃ x t, m.tensor x = .ok t ∧
      (t.kind = .input ∨ t.kind = .recurrent ∨ t.kind = .parameter) ∧
      a = allocation x.index .forward) n := by
  induction hw with
  | start => exact ⟨rfl, .refl _ _⟩
  | write w held _ ih =>
    obtain ⟨t, ht, hk⟩ := held
    have ht' : m.tensor w.target = .ok t := tensor_ok_iff.mpr (ih.tensor ht)
    refine keeps_perform w (fun u hu timestep k hslot v hv => ?_) ih
    rw [tensor_ok_iff.mp ht'] at hu
    cases hu
    exact ⟨w.target, t, ht', hk, h.forwardSlot (tensor_ok_iff.mp ht') hslot hv⟩

end

end Network

end Backprop
