import Mathlib
import Backprop.Proofs.Network.Snapshots
import Backprop.Proofs.Training.Inputs

/-! The life of a network: it is built, compiled once, and served after that if this succeeded.
Whatever calls come in whatever order, each stage turns down what belongs to another. -/

namespace Backprop.Network

variable {α β : Type}

/-- What is asked of a compiled network, snapshots among it. -/
inductive Service where
  | use (u : Use Binary32)
  | save (ids : List TensorId)
  | load (stream : Except Error Bytes) (ids : List TensorId)

def Service.call : Service → Call Binary32 Unit
  | .use u => u.call
  | .save ids => discard (saveSnapshot ids)
  | .load stream ids => loadSnapshot stream ids

/-- Any call on a network. -/
inductive Request where
  | build (c : BuildingCall Binary32)
  | addOperatorInto (op : Operator Binary32) (inputs : List TensorId) (result : TensorId)
      (timeOffset : Nat)
  | compile (batch : Nat)
  | serve (s : Service)

/-- The network after a call, whether or not that succeeds. -/
def Request.perform : Request → Network Binary32 → Network Binary32
  | .build c => c.perform
  | .addOperatorInto op inputs result timeOffset =>
    Call.after (Network.addOperatorInto op inputs result timeOffset)
  | .compile batch => Call.after (Network.compile batch)
  | .serve s => Call.after s.call

def Request.compiles : Request → Bool
  | .compile _ => true
  | _ => false

def after (n : Network Binary32) (requests : List Request) : Network Binary32 :=
  requests.foldl (fun n r => r.perform n) n

/-- Nothing has changed but names, values, and what dispatches and passes count. -/
def Frozen [Scalar α] (m k : Network α) : Prop :=
  ∃ tensors : Array Tensor, tensors.map unnamed = m.tensors.map unnamed ∧ { m with tensors }.Used k

/-! ### Refusals -/

section

variable {n n' : Network α}

theorem bind_refused {x : Call α β} {γ : Type} {f : β → Call α γ} {e : Error}
    (h : x n = .error e n') : (x >>= f) n = .error e n' :=
  Call.bind_error_iff.mpr (.inl h)

theorem discard_refused {x : Call α β} {e : Error} (h : x n = .error e n') :
    discard x n = .error e n' := by
  rw [Call.discard_eq]
  exact bind_refused h

theorem requireCompiled_refused (h : n.stage ≠ .compiled) :
    requireCompiled n = .error .notInitialized n := by
  change (if n.stage ≠ .compiled then _ else _ : Call α Unit) n = _
  rw [if_pos h]
  rfl

theorem requireBuilding_refused (h : n.stage ≠ .building) :
    requireBuilding n = .error .alreadyCompiled n := by
  change (if n.stage ≠ .building then _ else _ : Call α Unit) n = _
  rw [if_pos h]
  rfl

theorem run_refused [Scalar α] (h : n.stage ≠ .compiled) (pass : Pass) :
    run pass n = .error .notInitialized n :=
  bind_refused (requireCompiled_refused h)

theorem Service.refused {n : Network Binary32} (h : n.stage ≠ .compiled) (s : Service) :
    s.call n = .error .notInitialized n := by
  have hrequire := requireCompiled_refused h
  cases s with
  | use u =>
    cases u with
    | pass p => exact run_refused h p
    | batchDone => exact bind_refused (run_refused h .update)
    | clearBuffers => exact bind_refused hrequire
    | readTensor id timestep =>
      exact discard_refused (bind_refused hrequire)
    | readGradient id timestep =>
      exact discard_refused (bind_refused hrequire)
    | readAuxiliary id index =>
      exact discard_refused (bind_refused hrequire)
    | writeTensor id timestep data => exact bind_refused hrequire
    | writeSequence id data steps => exact bind_refused hrequire
    | writeGradient id timestep data => exact bind_refused hrequire
  | save ids => exact discard_refused (bind_refused hrequire)
  | load stream ids => exact bind_refused hrequire

theorem compile_tries [Scalar α] (h : n.stage = .building) (batch : Nat) :
    (∃ m, compile batch n = .ok ⟨⟩ m ∧ m.stage = .compiled) ∨
      ∃ e m, compile batch n = .error e m ∧ m.stage = .failed := by
  have hrequire : requireBuilding n = .ok ⟨⟩ n := requireBuilding_ok_iff.mpr ⟨h, rfl⟩
  unfold compile
  cases hc : compileStages (max batch 1) n with
  | ok u m =>
    exact .inl ⟨{ m with stage := .compiled },
      Call.bind_ok_iff.mpr ⟨⟨⟩, n, hrequire, by simp only [hc]⟩, rfl⟩
  | error e m =>
    exact .inr ⟨e, { m with stage := .failed },
      Call.bind_error_iff.mpr (.inr ⟨⟨⟩, n, hrequire, by simp only [hc]⟩), rfl⟩

theorem compile_refused [Scalar α] (h : n.stage ≠ .building) (batch : Nat) :
    compile batch n = .error .alreadyCompiled n :=
  bind_refused (requireBuilding_refused h)

theorem stage_build (c : BuildingCall α) : (c.perform n).stage = n.stage := by
  have hcreate : ∀ kind shape sequence,
      (Call.after (create kind shape sequence) n).stage = n.stage := by
    intro kind shape sequence
    refine Call.after_induct (P := fun m : Network α => m.stage = n.stage) (s := n) rfl
      (fun e m he => create_error he) fun id m hm => ?_
    rw [(create_ok_iff.mp hm).2.2.2]
  have hsame : ∀ m, n.SameGraph m → m.stage = n.stage := by
    rintro m ⟨tensors, optimizer, initializers, -, -, rfl⟩
    rfl
  cases c with
  | createInput shape sequence => exact hcreate ..
  | createState shape sequence => exact hcreate ..
  | createParameter shape sequence => exact hcreate ..
  | addOperator op inputs timeOffset =>
    refine Call.after_induct (P := fun m : Network α => m.stage = n.stage) (s := n) rfl
      (fun e m he => addOperator_error he) fun id m hm => ?_
    obtain ⟨-, -, ts, shape, sequence, -, -, -, rfl⟩ := addOperator_ok hm
    rfl
  | nameTensor id name => exact hsame _ (nameTensor_same n id name)
  | setOptimizer o => exact hsame _ (setOptimizer_same n o)
  | initWeight target init => exact hsame _ (initWeight_same n target init)

end

/-! ### What stays -/

section

variable [Scalar α] {m k n : Network α}

theorem keeps_used_of_altered {x : Call α β}
    (h : ∀ k, Call.Keeps (Altered k fun _ => True) x fun _ => True) :
    Call.Keeps m.Used x fun _ => True :=
  fun k hk => ⟨(hk.altered (h k k ⟨rfl, .refl _ _⟩).1).1, fun _ _ _ => trivial⟩

theorem keeps_backendZero {b : Backend α} (h : BufferId) (offset length : Nat) :
    Call.Keeps (fun c => b.Touches c fun _ => True) (Backend.zero h offset length)
      fun _ => True := by
  intro c hc
  refine ⟨Call.after_induct (P := fun c => b.Touches c fun _ => True) hc (fun e c' he => ?_)
    fun _ c' hok => ?_, fun _ _ _ => trivial⟩
  · have hatomic : Call.Atomic (Backend.zero h offset length : Backend.Call α Unit) :=
      .bind (fun _ => Call.keeps_get) fun _ => .bind (fun _ => Call.keeps_ofExcept _)
        fun _ _ _ _ he => (Call.set_error_iff.mp he).elim
    exact (hatomic c c' e he).symm
  · obtain ⟨w, -, rfl⟩ := Backend.zero_ok_iff.mp hok
    exact hc.trans ((Backend.Touches.store c w _).mono fun _ _ => trivial)

theorem keeps_clear {b : Backend α} (t : Tensor) :
    Call.Keeps (fun c => b.Touches c fun _ => True) (t.clear : Backend.Call α Unit)
      fun _ => True := by
  have hzero : ∀ s : Storage, Call.Keeps (fun c => b.Touches c fun _ => True)
      (s.zero : Backend.Call α Unit) fun _ => True := by
    intro s
    unfold Storage.zero
    cases s.base with
    | none => exact .pure trivial
    | some base =>
      exact Call.keeps_get.bind fun _ _ => (Call.keeps_ofExcept _).bind fun _ _ =>
        keeps_backendZero _ _ _
  unfold Tensor.clear
  cases t.kind with
  | scratch => exact .pure trivial
  | recurrent => exact (hzero _).bind fun _ _ => hzero _
  | _ => exact hzero _

theorem keeps_clearBuffers : Call.Keeps m.Used clearBuffers fun _ => True := by
  refine keeps_used_of_altered fun _ => keeps_requireCompiled.bind fun _ _ =>
    Call.keeps_get.bind fun _ _ => .forM fun t _ => keeps_onBackend fun n hn c hc => ?_
  refine ⟨⟨?_, (keeps_clear t c hc.2).1⟩, fun _ _ _ => trivial⟩
  rw [hn.1]

theorem keeps_run (pass : Pass) : Call.Keeps m.Used (run pass) fun _ => True := by
  refine fun k hk => ⟨?_, fun _ _ _ => trivial⟩
  have hstage : k.stage = m.stage := by rw [hk.same]
  by_cases hs : k.stage = .compiled
  · exact Used.run (hstage.symm.trans hs) hk pass
  · rw [Call.after, run_refused hs]
    exact hk

theorem keeps_written (w : HostWrite α) {x : Call α Unit} (h : Call.after x = w.perform) :
    Call.Keeps m.Used x fun _ => True :=
  fun _ hk => ⟨h ▸ hk.written w, fun _ _ _ => trivial⟩

theorem keeps_use (u : Use α) : Call.Keeps m.Used u.call fun _ => True := by
  have hread : ∀ x : Call α (Array α), Call.Keeps m.Used x (fun _ => True) →
      Call.Keeps m.Used (discard x) fun _ => True := fun x hx => by
    rw [Call.discard_eq]
    exact hx.bind fun _ _ => .pure trivial
  cases u with
  | pass p => exact keeps_run p
  | clearBuffers => exact keeps_clearBuffers
  | batchDone => exact (keeps_run .update).bind fun _ _ => keeps_clearBuffers
  | readTensor id timestep => exact hread _ (keeps_readTensor id timestep)
  | readGradient id timestep => exact hread _ (keeps_readGradient id timestep)
  | readAuxiliary id index => exact hread _ (keeps_readAuxiliary id index)
  | writeTensor id timestep data => exact keeps_written (.tensor id timestep data) rfl
  | writeSequence id data steps => exact keeps_written (.sequence id data steps) rfl
  | writeGradient id timestep data =>
    exact keeps_used_of_altered fun _ =>
      keeps_writeGradient id timestep data fun _ _ _ _ _ _ => trivial

end

section

variable {m k : Network Binary32}

theorem keeps_service (s : Service) : Call.Keeps m.Used s.call fun _ => True := by
  cases s with
  | use u => exact keeps_use u
  | save ids =>
    simp only [Service.call, Call.discard_eq]
    exact (keeps_saveSnapshot ids).bind fun _ _ => .pure trivial
  | load stream ids =>
    exact keeps_loadSnapshot stream fun id _ data => keeps_use (.writeTensor id 0 data)

theorem Frozen.refl (m : Network Binary32) : m.Frozen m := ⟨m.tensors, rfl, .refl m⟩

theorem Frozen.stage (h : m.Frozen k) : k.stage = m.stage := by
  obtain ⟨tensors, -, hk⟩ := h
  rw [hk.same]

theorem Frozen.nameTensor (h : m.Frozen k) (id : TensorId) (name : String) :
    m.Frozen (Call.after (nameTensor id name) k) := by
  refine Call.after_induct (P := m.Frozen) h (fun e k' he => nameTensor_error he)
    fun _ k' hok => ?_
  rw [nameTensor_ok hok]
  obtain ⟨tensors, htensors, hused⟩ := h
  have hk : k.tensors = tensors := by rw [hused.same]
  refine ⟨k.tensors.modify id.index ({ · with name := some name }), ?_, ?_, hused.later,
    hused.counted⟩
  · rw [← htensors, ← hk]
    refine Array.ext_getElem? fun i => ?_
    simp only [Array.getElem?_map, Array.getElem?_modify]
    split
    · cases k.tensors[i]? <;> rfl
    · rfl
  · rw [hused.same]

theorem build_refused (hs : k.stage ≠ .building) (c : BuildingCall Binary32) :
    c.perform k = k ∨ ∃ id name, c = .nameTensor id name := by
  have hrefused : ∀ {β : Type} (f : Unit → Call Binary32 β),
      Call.after (requireBuilding >>= f) k = k := by
    intro β f
    rw [Call.after, bind_refused (requireBuilding_refused hs)]
  cases c with
  | createInput shape sequence => exact .inl (hrefused _)
  | createState shape sequence => exact .inl (hrefused _)
  | createParameter shape sequence => exact .inl (hrefused _)
  | addOperator op inputs timeOffset => exact .inl (hrefused _)
  | nameTensor id name => exact .inr ⟨id, name, rfl⟩
  | setOptimizer o => exact .inl (hrefused _)
  | initWeight target init => exact .inl (hrefused _)

/-- Once a compilation has been tried, only names, values and counts change. -/
theorem Frozen.perform (h : m.Frozen k) (hs : m.stage ≠ .building) (r : Request) :
    m.Frozen (r.perform k) := by
  have hk : k.stage ≠ .building := h.stage ▸ hs
  cases r with
  | build c =>
    obtain hc | ⟨id, name, rfl⟩ := build_refused hk c
    · rwa [Request.perform, hc]
    · exact h.nameTensor id name
  | addOperatorInto op inputs result timeOffset =>
    have hrefused : addOperatorInto op inputs result timeOffset k = .error .alreadyCompiled k :=
      bind_refused (requireBuilding_refused hk)
    rw [Request.perform, Call.after, hrefused]
    exact h
  | compile batch =>
    rw [Request.perform, Call.after, compile_refused hk]
    exact h
  | serve s =>
    obtain ⟨tensors, htensors, hused⟩ := h
    exact ⟨tensors, htensors, (keeps_service s k hused).1⟩

theorem Frozen.after (h : m.Frozen k) (hs : m.stage ≠ .building) (requests : List Request) :
    m.Frozen (k.after requests) := by
  induction requests generalizing k with
  | nil => exact h
  | cons r requests ih => exact ih (h.perform hs r)

/-- Nothing but a compilation ends the building of a network. -/
theorem stage_perform (hk : k.stage = .building) {r : Request} (hr : r.compiles = false) :
    (r.perform k).stage = .building := by
  cases r with
  | build c => exact (stage_build c).trans hk
  | addOperatorInto op inputs result timeOffset =>
    refine Call.after_induct (P := fun m : Network Binary32 => m.stage = .building) hk
      (fun e m he => addOperatorInto_error he) fun id m hm => ?_
    obtain ⟨-, -, ts, shape, target, -, -, -, -, rfl⟩ := addOperatorInto_ok hm
    exact hk
  | compile batch => cases hr
  | serve s =>
    have hne : k.stage ≠ .compiled := by simp [hk]
    rw [Request.perform, Call.after, Service.refused hne]
    exact hk

theorem stage_after (hk : k.stage = .building) {requests : List Request}
    (hr : ∀ r ∈ requests, r.compiles = false) : (k.after requests).stage = .building := by
  induction requests generalizing k with
  | nil => exact hk
  | cons r requests ih =>
    exact ih (stage_perform hk (hr r List.mem_cons_self))
      fun r' hr' => hr r' (List.mem_cons_of_mem _ hr')

/-- A network is compiled once at most, and serves only once that has succeeded. From the first
attempt on, whatever came of it, the graph and what has been recorded for it stay as they are: only
names, values, and what dispatches and passes count change. -/
theorem lifecycle (b : Backend Binary32) (config : NetworkConfig) (requests : List Request) :
    let start := Network.new b config
    let n := start.after requests
    ((∀ r ∈ requests, r.compiles = false) → ∀ s : Service, s.call n = .error .notInitialized n) ∧
    (∀ before batch later, requests = before ++ .compile batch :: later →
      (∀ r ∈ before, r.compiles = false) →
      (∀ again, compile again n = .error .alreadyCompiled n) ∧
      ((∃ e m, compile batch (start.after before) = .error e m) →
        ∀ s : Service, s.call n = .error .notInitialized n) ∧
      (start.after (before ++ [.compile batch])).Frozen n) ∧
    Error.notInitialized.kind = .usageSequence ∧
      Error.notInitialized.detail = "graph not initialized" ∧
      Error.alreadyCompiled.kind = .usageSequence := by
  intro start n
  have hstart : start.stage = .building := rfl
  refine ⟨fun hr s => Service.refused (by simp [n, stage_after hstart hr]) s, ?_, rfl, rfl, rfl⟩
  rintro before batch later hrequests hr
  have hbefore := stage_after hstart hr
  have hsplit : n = (Call.after (compile batch) (start.after before)).after later := by
    simp only [n, hrequests, Network.after, List.foldl_append, List.foldl_cons, Request.perform]
  have htried : start.after (before ++ [.compile batch]) =
      Call.after (compile batch) (start.after before) := by
    simp only [Network.after, List.foldl_append, List.foldl_cons, List.foldl_nil, Request.perform]
  rw [htried]
  generalize hm : Call.after (compile batch) (start.after before) = m at hsplit
  have hstage : m.stage ≠ .building ∧
      ((∃ e m, compile batch (start.after before) = .error e m) → m.stage = .failed) := by
    obtain ⟨m', hok, hcompiled⟩ | ⟨e, m', herror, hfailed⟩ := compile_tries hbefore batch
    · obtain rfl : m' = m := by simpa only [Call.after, hok] using hm
      exact ⟨by simp [hcompiled], by simp [hok]⟩
    · obtain rfl : m' = m := by simpa only [Call.after, herror] using hm
      exact ⟨by simp [hfailed], fun _ => hfailed⟩
  have hfrozen : m.Frozen n := hsplit ▸ (Frozen.refl m).after hstage.1 later
  exact ⟨compile_refused (hfrozen.stage ▸ hstage.1),
    fun hfailed => Service.refused (by simp [hfrozen.stage, hstage.2 hfailed]), hfrozen⟩

def bareBackend : Backend Binary32 := { device := .standard, registry := ⟨[]⟩ }

/-- An operator that no kernel can be compiled for. -/
def rectified : List Request :=
  [.build (.createInput ⟨1, 1, 1, 1⟩ 1), .build (.addOperator (.activation .relu) [⟨0⟩] 0)]

/-- A network whose compilation fails takes no values and no passes, and is not compiled again. -/
theorem rectified_lifecycle : ∃ e m n,
    compile 1 ((Network.new bareBackend {}).after rectified) = .error e m ∧
      n = (Network.new bareBackend {}).after (rectified ++ [.compile 1, .compile 2]) ∧
      (∀ again, compile again n = .error .alreadyCompiled n) ∧
      ∀ s : Service, s.call n = .error .notInitialized n := by
  have hrefused : Call.isOk (compile 1 ((Network.new bareBackend {}).after rectified)) = false := by
    decide +kernel
  obtain ⟨e, hfailed⟩ := Call.error_of_isOk hrefused
  obtain ⟨-, hattempt, -⟩ := lifecycle bareBackend {} (rectified ++ [.compile 1, .compile 2])
  obtain ⟨hagain, hserve, -⟩ := hattempt rectified 1 [.compile 2] rfl (by decide)
  exact ⟨e, _, _, hfailed, rfl, hagain, hserve ⟨e, _, hfailed⟩⟩

end

end Backprop.Network
