import Mathlib
import Backprop.Proofs.Backend.Effects
import Backprop.Proofs.Kernel.Safety

/-! A launch keeps to the buffers it is given. It reads and writes inside their windows and divides
by no zero, only those of the arguments that the kernel writes change, and one that fails changes
nothing. -/

namespace Backprop

variable {α : Type}

theorem Faultless.mapM {β γ : Type} {f : β → Except Error γ} {l : List β}
    (h : ∀ b, Faultless (f b)) : Faultless (l.mapM f) := by
  induction l with
  | nil => exact .pure []
  | cons b l ih =>
    rw [List.mapM_cons]
    exact .bind (h b) fun c _ => .bind ih fun cs _ => .pure _

namespace Device

/-- Word `i` of an allocation belongs to an argument that the kernel writes. -/
def Writable (k : HostKernel) (bindings : List (Binding α)) (a i : Nat) : Prop :=
  ∃ j ∈ k.outputs, ∃ offset length, bindings[j]? = some (.buffer a offset length) ∧
    offset / 4 ≤ i ∧ i < offset / 4 + length / 4

/-- A changed buffer fills the window it came from. -/
def Fits (d : Device α) (windows : List (Option Window)) (change : Nat × Array α) : Prop :=
  ∃ w, windows[change.1]? = some (some w) ∧ d.Holds w ∧ change.2.size = w.count

variable {d e : Device α} {k : HostKernel} {bindings : List (Binding α)}
  {gathered : List (Operand α × Option Window)} {size : Launch} {ws : Writes α}

theorem window_faultless (d : Device α) (allocation offset length : Nat) :
    Faultless (d.window allocation offset length) := by
  unfold window
  split
  · exact .throw fun _ h => nomatch h
  · split
    · exact .throw fun _ h => nomatch h
    · split
      · exact .throw fun _ h => nomatch h
      · exact .pure _

theorem gather_faultless (d : Device α) (binding : Binding α) : Faultless (d.gather binding) := by
  cases binding with
  | buffer allocation offset length =>
    exact .bind (d.window_faultless allocation offset length) fun w _ => .pure _
  | scalar s => exact .pure _
  | blob bytes => exact .pure _

theorem gather_words {binding : Binding α} {x : Operand α × Option Window} {old : Array α}
    (h : d.gather binding = .ok x) (hx : x.1 = .words old) :
    ∃ a offset length, binding = .buffer a offset length ∧
      x.2 = some ⟨a, offset / 4, length / 4⟩ ∧ d.Holds ⟨a, offset / 4, length / 4⟩ ∧
      old.size = length / 4 := by
  cases binding with
  | buffer a offset length =>
    simp only [gather, Except.bind_ok_iff, Except.pure_ok_iff, window_ok_iff] at h
    obtain ⟨w, ⟨-, -, rfl, hw⟩, rfl⟩ := h
    obtain rfl := Operand.words.inj hx
    exact ⟨a, offset, length, rfl, rfl, hw, size_words hw⟩
  | scalar s =>
    cases h
    cases hx
  | blob bytes =>
    cases h
    cases hx

theorem run_windows [Scalar α] (hg : bindings.mapM d.gather = .ok gathered)
    (hrun : k.run ⟨gathered.map (·.1), size⟩ = .ok ws) :
    ∀ change ∈ ws, ∃ a offset length, change.1 ∈ k.outputs ∧
      bindings[change.1]? = some (.buffer a offset length) ∧
      (gathered.map (·.2))[change.1]? = some (some ⟨a, offset / 4, length / 4⟩) ∧
      d.Holds ⟨a, offset / 4, length / 4⟩ ∧ change.2.size = length / 4 := by
  intro change hc
  obtain ⟨houtputs, hsizes⟩ := HostKernel.run_changes hrun
  obtain ⟨old, hold, hsize⟩ := hsizes change hc
  simp only [List.getElem?_map, Option.map_eq_some_iff] at hold
  obtain ⟨x, hx, hold⟩ := hold
  obtain ⟨binding, hbinding, hgather⟩ := forall₂_getElem? (Except.mapM_ok_iff.mp hg).flip hx
  obtain ⟨a, offset, length, rfl, hw, hholds, hold⟩ := gather_words hgather hold
  refine ⟨a, offset, length, houtputs ▸ List.mem_map_of_mem hc, hbinding, ?_, hholds, ?_⟩
  · rw [List.getElem?_map, hx, Option.map_some, hw]
  · rw [hsize, hold]

theorem sizes_putBack (windows : List (Option Window)) (d : Device α) (change : Nat × Array α) :
    (putBack windows d change).sizes = d.sizes := by
  unfold putBack
  split
  · exact sizes_store d _ _
  · rfl

theorem sizes_foldl_putBack (windows : List (Option Window)) (d : Device α) (ws : Writes α) :
    (ws.foldl (putBack windows) d).sizes = d.sizes := by
  induction ws generalizing d with
  | nil => rfl
  | cons change ws ih => exact (ih _).trans (sizes_putBack windows d change)

theorem word?_foldl_putBack {windows : List (Option Window)} {a i : Nat}
    (h : ∀ change ∈ ws, ∀ w, windows[change.1]? = some (some w) → a = w.allocation →
      i < w.start ∨ w.start + change.2.size ≤ i) :
    (ws.foldl (putBack windows) d).word? a i = d.word? a i := by
  induction ws generalizing d with
  | nil => rfl
  | cons change ws ih =>
    rw [List.foldl_cons, ih fun c hc => h c (List.mem_cons_of_mem change hc)]
    unfold putBack
    split
    · next w hw => exact word?_store (h change List.mem_cons_self w hw)
    · rfl

theorem launch_ok_iff [Scalar α] : d.launch k bindings size = .ok e ↔ ∃ gathered ws,
    bindings.mapM d.gather = .ok gathered ∧ k.run ⟨gathered.map (·.1), size⟩ = .ok ws ∧
      e = ws.foldl (putBack (gathered.map (·.2))) d := by
  simp only [launch, Except.bind_ok_iff, Except.pure_ok_iff, exists_and_left, @eq_comm _ e]

/-- What a launch may do. -/
structure Confines [Scalar α] (d : Device α) (k : HostKernel) (bindings : List (Binding α))
    (size : Launch) : Prop where
  /-- No access is out of bounds and no division is by zero: a launch ends in a result or in an
  error, unless its kernel computes a size that is none. -/
  faults : ∀ f, d.launch k bindings size = .error (.fault f) → f = .overflow ∧
    ∃ gathered, bindings.mapM d.gather = .ok gathered ∧ k.Overflows ⟨gathered.map (·.1), size⟩
  fits : ∀ gathered ws, bindings.mapM d.gather = .ok gathered →
    k.run ⟨gathered.map (·.1), size⟩ = .ok ws → ∀ change ∈ ws, d.Fits (gathered.map (·.2)) change
  sizes : ∀ e, d.launch k bindings size = .ok e → e.sizes = d.sizes
  words : ∀ e, d.launch k bindings size = .ok e → ∀ a i, ¬Writable k bindings a i →
    e.word? a i = d.word? a i

theorem confines [Scalar α] (d : Device α) (k : HostKernel) (bindings : List (Binding α))
    (size : Launch) : d.Confines k bindings size where
  faults f h := by
    obtain ⟨gathered, hg, h⟩ := Faultless.fault_after (.mapM d.gather_faultless) h
    cases hrun : k.run ⟨gathered.map (·.1), size⟩ with
    | ok ws => simp [hrun] at h
    | error e =>
      simp only [hrun] at h
      obtain rfl := Except.error.inj h
      obtain ⟨rfl, hoverflows⟩ := k.run_faults hrun
      exact ⟨rfl, gathered, hg, hoverflows⟩
  fits gathered ws hg hrun change hc := by
    obtain ⟨a, offset, length, -, -, hw, hholds, hsize⟩ := run_windows hg hrun change hc
    exact ⟨_, hw, hholds, hsize⟩
  sizes e he := by
    obtain ⟨gathered, ws, -, -, rfl⟩ := launch_ok_iff.mp he
    exact sizes_foldl_putBack _ d ws
  words e he a i hout := by
    obtain ⟨gathered, ws, hg, hrun, rfl⟩ := launch_ok_iff.mp he
    refine word?_foldl_putBack fun change hc w hw ha => ?_
    obtain ⟨b, offset, length, hk, hb, hw', -, hsize⟩ := run_windows hg hrun change hc
    obtain rfl := Option.some.inj (Option.some.inj (hw.symm.trans hw'))
    by_contra hin
    subst ha
    dsimp only at hin
    exact hout ⟨change.1, hk, offset, length, hb, by omega, by omega⟩

end Device

theorem Backend.window_faultless (b : Backend α) (h : BufferId) (offset length : Nat) :
    Faultless (b.window h offset length) := by
  have hbuffer : Faultless (b.buffer h) := by
    unfold buffer
    split
    · exact .pure _
    · exact .throw (by simp)
  refine .bind hbuffer fun buffer _ => ?_
  split
  · exact .bind (.throw (by simp)) fun _ _ => b.device.window_faultless _ _ _
  · exact b.device.window_faultless _ _ _

theorem Backend.play_atomic [Scalar α] (pass : Pass) (position : Nat) :
    Call.Atomic (play pass position : Call α Unit) := by
  refine Call.Atomic.bind (fun _ => Call.keeps_get) fun b => ?_
  split
  · intro s s' e h
    cases h
  · next d hd =>
    refine Call.Atomic.bind (fun _ => Call.keeps_ofExcept _) fun device => ?_
    intro s s' e h
    cases h

/-- Every kernel of the host, launched on any arguments. -/
theorem launch_safe [Scalar α] (d : Device α) (k : HostKernel) (bindings : List (Binding α))
    (size : Launch) :
    d.Confines k bindings size ∧
      ∀ pass position, Call.Atomic (Backend.play pass position : Backend.Call α Unit) :=
  ⟨d.confines k bindings size, Backend.play_atomic⟩

def infiniteWords : Device Binary32 :=
  { (Device.standard : Device Binary32) with
    memory := #[#[⟨0x7f800000⟩, ⟨0⟩, ⟨0⟩, ⟨0⟩], #[⟨0⟩, ⟨0⟩, ⟨0⟩, ⟨0⟩]] }

/-- An infinite count has no next, and so many planes of two by two are more than there are sizes. -/
theorem launch_overflows :
    infiniteWords.launch .appendId [.buffer 0 0 16, .scalar (.float 0)] .single =
        .error (.fault .overflow) ∧
      infiniteWords.launch .transpose
          [.buffer 0 0 16, .buffer 1 0 16, .scalar (.int 2), .scalar (.int 2)]
          ⟨⟨1, 1, 2 ^ 62⟩, ⟨1, 1, 1⟩⟩ = .error (.fault .overflow) := by
  constructor
  · rfl
  · rfl

end Backprop
