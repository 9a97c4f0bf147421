import Mathlib
import Backprop.Proofs.Network.SequenceWrites

/-! Writes that fail. A write to one slot does nothing then; a sequence or a snapshot may have
written what comes before the place where it fails. -/

namespace Backprop

variable {α β : Type}

theorem Backend.write_atomic (h : BufferId) (offset : Nat) (data : Array α) :
    Call.Atomic (Backend.write h offset data) :=
  .bind (fun _ => Call.keeps_get) fun _ => .bind (fun _ => Call.keeps_ofExcept _) fun _ _ _ _ he =>
    (Call.set_error_iff.mp he).elim

namespace Network

variable {n m k k' : Network α} {e : Error}

theorem onBackend_atomic {call : Backend.Call α β} (h : Call.Atomic call) :
    Call.Atomic (onBackend call) := by
  intro s s' e he
  unfold onBackend at he
  cases hc : call s.backend with
  | ok x c => simp [hc] at he
  | error e' c =>
    simp only [hc, EStateM.Result.error.injEq] at he
    rw [← he.2, h _ _ _ hc]

theorem writeTensor_atomic (id : TensorId) (timestep : Nat) (data : Array α) :
    Call.Atomic (writeTensor id timestep data) := by
  refine .bind (fun _ => keeps_requireCompiled) fun _ => .bind (fun _ => Call.keeps_get) fun n => ?_
  refine .bind (fun _ => Call.keeps_ofExcept _) fun t => .bind (fun _ => Call.keeps_ofExcept _)
    fun h => ?_
  exact onBackend_atomic (Backend.write_atomic h 0 data)

theorem writeGradient_atomic (id : TensorId) (timestep : Nat) (data : Array α) :
    Call.Atomic (writeGradient id timestep data) := by
  refine .bind (fun _ => keeps_requireCompiled) fun _ => .bind (fun _ => Call.keeps_get) fun n => ?_
  refine .bind (fun _ => Call.keeps_ofExcept _) fun t => .bind (fun _ => Call.keeps_ofExcept _)
    fun h => ?_
  exact onBackend_atomic (Backend.write_atomic h 0 data)

/-! ### Networks in use -/

section

variable [Scalar α]

theorem Used.altered {A : Nat → Prop} (hk : m.Used k) (ha : k.Altered A n) :
    m.Used n ∧ n.backend.dispatches = k.backend.dispatches := by
  obtain ⟨hsame, htouches⟩ := ha
  have hbackend : n.backend = { k.backend with device := n.backend.device } := htouches.same
  have hlists : n.backend.dispatches = k.backend.dispatches := by rw [hbackend]
  refine ⟨⟨?_, ⟨?_, htouches.sizes.trans hk.later.sizes⟩, fun pass => ?_⟩, hlists⟩
  · rw [hsame, hk.same]
  · rw [hbackend, hk.later.same]
  · rw [hlists]
    exact hk.counted pass

theorem Used.written (used : m.Used k) (w : HostWrite α) : m.Used (w.perform k) :=
  (used.altered (keeps_perform (m := k) w (fun _ _ _ _ _ _ _ => trivial)
    ⟨rfl, .refl _ fun _ => True⟩)).1

end

/-! ### Sequences -/

theorem writeStep_atomic (t : Tensor) (staging : Nat) (data : Array α) (steps timestep : Nat) :
    Call.Atomic (writeStep t staging data steps timestep) := by
  refine .bind (fun _ => Call.keeps_ofExcept _) fun h => ?_
  intro s s' e he
  obtain ⟨-, -, rfl⟩ | ⟨-, he⟩ := Call.throw_ite_error_iff.mp he
  · rfl
  · exact Call.Atomic.bind (fun _ => Call.keeps_ofExcept _)
      (fun values => onBackend_atomic (Backend.write_atomic h 0 values)) _ _ _ he

theorem forM_writeStep_touches {t : Tensor} {staging steps : Nat} {data : Array α} {l : List Nat}
    (h : l.forM (writeStep t staging data steps) k = .ok ⟨⟩ k') :
    k.Altered (fun _ => True) k' := by
  have hkeeps : Call.Keeps (k.Altered fun _ => True) (l.forM (writeStep t staging data steps))
      fun _ => True := .forM fun timestep _ => (Call.keeps_ofExcept _).bind fun h _ =>
    .throw_ite ((Call.keeps_ofExcept _).bind fun _ _ => keeps_write fun _ _ => trivial)
  have hafter := (hkeeps k ⟨rfl, .refl _ _⟩).1
  rwa [Call.after_of_ok h] at hafter

variable [Zero α] {auxiliary : Nat} {allocation : Nat → Side → Nat}

/-- A sequence that fails has written nothing, or only the first timestep of a parameter, which has
no others. -/
theorem Arranged.writeSequence_error (ha : Arranged m auxiliary allocation)
    (hm : k.tensors = m.tensors) (hbuffers : k.backend.buffers = m.backend.buffers)
    (hsizes : k.backend.device.sizes = m.backend.device.sizes)
    (scratch : ∀ (i : Nat) (t : Tensor), m.tensors[i]? = some t → t.kind = .scratch →
      t.sequence = 1) {id : TensorId} {data : Array α} {steps : Nat}
    (he : writeSequence id data steps k = .error e k') :
    k' = k ∨ ∃ t, k.tensor id = .ok t ∧ t.kind = .parameter ∧ 1 < steps ∧
      writeTensor id 0 (timestepRows data steps t.shape.rowElements t.shape.w 0) k = .ok ⟨⟩ k' := by
  obtain ⟨rfl, -⟩ | ⟨hstage, t, ht, hsteps, hsize, he⟩ := Network.writeSequence_error he
  · exact .inl rfl
  obtain ⟨before, j, rest, k₁, hl, hbefore, hj⟩ := Call.forM_error_iff.mp he
  obtain rfl := writeStep_atomic t k.staging data steps j _ _ _ hj
  have haltered := forM_writeStep_touches hbefore
  obtain ⟨hstart, hj'⟩ : before = List.range j ∧ j < steps := by
    rw [List.range_eq_range', List.range'_eq_append_iff] at hl
    obtain ⟨count, hcount, rfl, hrest⟩ := hl
    rw [eq_comm, List.range'_eq_cons_iff] at hrest
    rw [List.range_eq_range']
    exact ⟨by rw [← hrest.1]; simp, by omega⟩
  subst hstart
  cases j with
  | zero => exact .inl (Call.forM_nil_ok_iff.mp hbefore)
  | succ j =>
    have ht' : m.tensors[id.index]? = some t := by rwa [tensor_ok_iff, hm] at ht
    rw [List.range_succ_eq_map] at hbefore
    obtain ⟨k₂, hfirst, hothers⟩ := Call.forM_cons_ok_iff.mp hbefore
    obtain ⟨h, _, hfound, hwrite⟩ := Call.bind_ok_iff.mp hfirst
    obtain ⟨hslot, rfl⟩ := Call.ofExcept_ok_iff.mp hfound
    obtain ⟨hstaging, hwrite⟩ := Call.throw_ite_ok_iff.mp hwrite
    obtain ⟨_, _, hgather, hwrite⟩ := Call.bind_ok_iff.mp hwrite
    obtain ⟨hrows, rfl⟩ := Call.ofExcept_ok_iff.mp hgather
    rw [gatherRows_ok hsize.ge (Nat.zero_lt_of_lt hj'), Except.ok.injEq] at hrows
    subst hrows
    by_cases kind : t.kind = .parameter
    · cases j with
      | zero =>
        obtain rfl := Call.forM_nil_ok_iff.mp hothers
        refine .inr ⟨t, ht, kind, hj', ?_⟩
        simp only [writeTensor, Call.bind_ok_iff, requireCompiled_ok_iff, Call.get_ok_iff,
          Call.ofExcept_ok_iff]
        exact ⟨⟨⟩, k, ⟨hstage, rfl⟩, k, k, ⟨rfl, rfl⟩, t, k, ⟨ht, rfl⟩, h, k, ⟨hslot, rfl⟩, hwrite⟩
      | succ j =>
        -- the second timestep of a parameter has no slot
        rw [List.range_succ_eq_map, List.map_cons] at hothers
        obtain ⟨k₃, hsecond, -⟩ := Call.forM_cons_ok_iff.mp hothers
        obtain ⟨h', _, hslot', -⟩ := Call.bind_ok_iff.mp hsecond
        have hnone := (Call.ofExcept_ok_iff.mp hslot').1
        rw [Network.forwardSlot, if_pos kind] at hnone
        cases hnone
    · have hok := ha.writeStep_ok (haltered.2.buffers.trans hbuffers)
        (haltered.2.sizes.trans hsizes) ht' kind (scratch _ t ht') (Nat.not_lt.mp hstaging) hsteps
        hsize hj'
      rw [hj] at hok
      cases hok

/-! ### Snapshots -/

theorem restoreTensor_atomic (stream : Bytes) (id : TensorId) :
    Call.Atomic (restoreTensor stream id) := by
  refine .bind (fun _ => Call.keeps_get) fun n => .bind (fun _ => Call.keeps_ofExcept _) fun t => ?_
  cases t.name with
  | none => exact fun _ _ _ h => (Call.throw_error_iff.mp h).2.symm
  | some name =>
    exact .bind (fun _ => Call.keeps_ofExcept _) fun values => writeTensor_atomic id 0 _

/-- A snapshot that cannot be loaded leaves what loading the tensors before the first that fails
leaves. -/
theorem loadSnapshot_error {k k' : Network Binary32} {stream : Except Error Bytes}
    {ids : List TensorId} (he : loadSnapshot stream ids k = .error e k') :
    k' = k ∨ ∃ before id rest, ids = before ++ id :: rest ∧
      loadSnapshot stream before k = .ok ⟨⟩ k' := by
  obtain he | ⟨_, hstage, he⟩ := Call.bind_error_of_keeps keeps_requireCompiled he
  · exact .inl he
  obtain he | ⟨bytes, hbytes, he⟩ := Call.bind_error_of_keeps (Call.keeps_ofExcept _) he
  · exact .inl he
  obtain ⟨before, id, rest, k₁, rfl, hbefore, hid⟩ := Call.forM_error_iff.mp he
  obtain rfl := restoreTensor_atomic bytes id _ _ _ hid
  refine .inr ⟨before, id, rest, rfl, ?_⟩
  exact Call.bind_ok_iff.mpr ⟨⟨⟩, k, hstage, Call.bind_ok_iff.mpr ⟨bytes, k, hbytes, hbefore⟩⟩

variable {b : Backend Binary32} {config : NetworkConfig} {n m k k' : Network Binary32}
  {batch : Nat}

/-- Writes of a compiled network that fail, at any time of its use. One that goes to a single slot
leaves all as it was. A sequence leaves all as it was or has written the first timestep of a
parameter, which has no others; and a snapshot has restored the tensors before the first that
fails. -/
theorem Assembled.failed_writes (idle : b.Idle) (built : Assembled (Network.new b config) n)
    (compiled : compile batch n = .ok ⟨⟩ m) (used : m.Used k) :
    (∀ id timestep data e k', writeTensor id timestep data k = .error e k' → k' = k) ∧
    (∀ id timestep data e k', writeGradient id timestep data k = .error e k' → k' = k) ∧
    (∀ id data steps e k', writeSequence id data steps k = .error e k' →
      k' = k ∨ ∃ t, k.tensor id = .ok t ∧ t.kind = .parameter ∧ 1 < steps ∧
        writeTensor id 0 (timestepRows data steps t.shape.rowElements t.shape.w 0) k =
          .ok ⟨⟩ k') ∧
    ∀ stream ids e k', loadSnapshot stream ids k = .error e k' →
      k' = k ∨ ∃ before id rest, ids = before ++ id :: rest ∧
        loadSnapshot stream before k = .ok ⟨⟩ k' := by
  have hout := built.outline
  have hc := compile_ok hout ⟨idle.dispatches, idle.sound⟩ compiled
  obtain ⟨allocation, ha⟩ := hc.arranged
  have htensors : k.tensors = m.tensors := by rw [used.same]
  refine ⟨fun id timestep data e k' => writeTensor_atomic id timestep data k k' e,
    fun id timestep data e k' => writeGradient_atomic id timestep data k k' e,
    fun id data steps e k' => ?_, fun stream ids e k' => loadSnapshot_error⟩
  exact ha.writeSequence_error htensors used.later.buffers used.later.sizes fun i t ht hk =>
    hc.scratch_sequence hout ht hk

/-- A parameter that is asked to have two timesteps, and another one; both get names. -/
def weightCalls : List (BuildingCall Binary32) :=
  [.createParameter ⟨2, 1, 1, 1⟩ 2, .createParameter ⟨1, 1, 1, 1⟩ 1, .nameTensor ⟨0⟩ "a",
    .nameTensor ⟨1⟩ "b"]

def namedWeights : Network Binary32 := (Network.new Backend.host {}).draft weightCalls

def compiledWeights : Network Binary32 := Call.after (compile 1) namedWeights

set_option maxRecDepth 100000 in
theorem namedWeights_compile : compile 1 namedWeights = .ok ⟨⟩ compiledWeights :=
  Call.ok_of_isOk (by decide +kernel)

set_option maxRecDepth 100000 in
theorem namedWeights_failed_write : ∃ e k',
    writeTensor ⟨0⟩ 1 #[.ofInt 1, .ofInt 2] compiledWeights = .error e k' ∧
      k' = compiledWeights := by
  obtain ⟨e, he⟩ : ∃ e, writeTensor ⟨0⟩ 1 #[.ofInt 1, .ofInt 2] compiledWeights = .error e _ :=
    Call.error_of_isOk (by decide +kernel)
  have hbuilt : Assembled (Network.new Backend.host {}) namedWeights := Assembled.start.draft _
  exact ⟨e, _, he, (Assembled.failed_writes Backend.host_idle hbuilt namedWeights_compile
    (.refl _)).1 _ _ _ _ _ he⟩

/-- A record for the first of the two parameters, and one for the second that lacks its word. -/
def shortSnapshot : Bytes := [97, 10, 1, 0, 0, 0, 2, 0, 0, 0, 10, 98, 10, 10]

set_option maxRecDepth 100000 in
/-- A sequence for a parameter and a snapshot with a short record fail after they have changed
memory. -/
theorem failed_writes_change :
    compile 1 namedWeights = .ok ⟨⟩ compiledWeights ∧
    compiledWeights.backend.validation = true ∧
    (∃ e k', writeSequence ⟨0⟩ #[.ofInt 1, .ofInt 2, .ofInt 3, .ofInt 4] 2 compiledWeights =
      .error e k' ∧ k'.backend.device.memory ≠ compiledWeights.backend.device.memory) ∧
    ∃ e k', loadSnapshot (.ok shortSnapshot) [⟨0⟩, ⟨1⟩] compiledWeights = .error e k' ∧
      k'.backend.device.memory ≠ compiledWeights.backend.device.memory := by
  obtain ⟨e, he⟩ : ∃ e, writeSequence ⟨0⟩ #[.ofInt 1, .ofInt 2, .ofInt 3, .ofInt 4] 2
      compiledWeights = .error e _ := Call.error_of_isOk (by decide +kernel)
  obtain ⟨e', he'⟩ : ∃ e, loadSnapshot (.ok shortSnapshot) [⟨0⟩, ⟨1⟩] compiledWeights =
      .error e _ := Call.error_of_isOk (by decide +kernel)
  exact ⟨namedWeights_compile, by decide +kernel, ⟨e, _, he, by decide +kernel⟩,
    e', _, he', by decide +kernel⟩

end Network

end Backprop
