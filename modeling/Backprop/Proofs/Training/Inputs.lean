import Mathlib
import Backprop.Proofs.Training.Course

/-! Inputs belong to the host. Whatever else is asked of a compiled network, an input that no
operator writes keeps its values until the host gives it others. -/

namespace Backprop.Network

variable {α β : Type} {n m k k' : Network α} {i : Nat} {t : Tensor} {values : Nat → Array α}

def Unwritten (n : Network α) (x : TensorId) : Prop := ∀ node ∈ n.nodes, node.output ≠ x

instance (n : Network α) (x : TensorId) : Decidable (n.Unwritten x) :=
  decidable_of_iff (n.nodes.toList.all fun node => node.output ≠ x) <| by
    simp only [List.all_eq_true, Array.mem_toList_iff, decide_eq_true_eq, Unwritten]

/-- The network is in use, and the forward slots of a tensor hold given values. -/
structure Retains [Scalar α] (m : Network α) (t : Tensor) (values : Nat → Array α)
    (k : Network α) : Prop where
  used : m.Used k
  slots : ∀ j, t.values k.backend (.slot .forward j) = values j

section

variable [Scalar α] {b : Backend α} {batch alignment : Nat}

theorem Rests.retains {P : Part → Prop} (hr : m.Rests t P k k') (hP : ∀ j, P (.slot .forward j))
    (hk : m.Retains t values k) : m.Retains t values k' :=
  ⟨hr.used, fun j => (hr.values _ (hP j)).trans (hk.slots j)⟩

theorem Confined.retains {H : BufferId → Prop} (hc : k.Confined k' H)
    (apart : ∀ j l, t.part? (.slot .forward j) = some l → ∀ r, H r → m.backend.Apart l r)
    (hk : m.Retains t values k) : m.Retains t values k' := by
  refine ⟨hk.used.trans hc.used, fun j => Eq.trans ?_ (hk.slots j)⟩
  cases hl : t.part? (.slot .forward j) with
  | none => simp only [Tensor.values, hl]
  | some l =>
    rw [Tensor.values_part hl, Tensor.values_part hl]
    exact hc.alters.contents fun r hr => (apart j l hl r hr).congr hk.used.later.buffers

section

variable (hn : Outline b n) (h : Compiled n m batch) (hd : m.Divided alignment n.auxiliaryCount)
  (ht : m.tensors[i]? = some t) (kind : t.kind = .input)

include hn h hd ht kind

theorem Compiled.run_retains (unwritten : m.Unwritten ⟨i⟩) (pass : Pass) :
    Call.Keeps (m.Retains t values) (run pass) fun _ => True := by
  refine fun k hk => ⟨?_, fun _ _ _ => trivial⟩
  refine (h.run_confined hn hk.used pass).1.retains (fun j l hl r hr => ?_) hk
  have hother : ∀ (s : Nat) (u : Tensor), m.tensors[s]? = some u → u.kind ≠ .input → s ≠ i := by
    rintro s u hu hkind rfl
    rw [ht, Option.some.injEq] at hu
    exact hkind (hu ▸ kind)
  have happ : ∀ (s : Nat) (u : Tensor) (q : Part), m.tensors[s]? = some u → u.part? q = some r →
      (i, Part.slot .forward j) ≠ (s, q) → m.backend.Apart l r :=
    fun s u q hu hq hne => hd.apart ht hl hu hq hne
  cases pass with
  | forward =>
    obtain ⟨node, hnode, ⟨u, s, hu, hslot⟩ | ⟨-, u, hu, -, hslot⟩⟩ := hr
    · refine happ _ u _ hu hslot fun heq => unwritten node hnode ?_
      cases heq
      rfl
    · exact happ _ u _ hu hslot (by simp)
  | backward =>
    obtain ⟨node, -, x, -, u, s, hu, hslot⟩ | ⟨s, ⟨u, hu, hkind⟩, u', s', hu', hslot⟩ := hr
    · exact happ _ u _ hu hslot (by simp)
    · refine happ _ u' _ hu' hslot fun heq => hother s u hu (by simp [hkind]) ?_
      cases heq
      rfl
  | update =>
    obtain ⟨s, ⟨u, hu, hkind⟩, ⟨u', s', hu', hslot⟩ | ⟨s', u', hu', -, hslot⟩⟩ := hr
    · refine happ _ u' _ hu' hslot fun heq => hother s u hu (by simp [hkind]) ?_
      cases heq
      rfl
    · exact happ _ u' _ hu' hslot (by simp)

theorem Compiled.clear_retains :
    Call.Keeps (m.Retains t values) clearBuffers fun _ => True := by
  refine fun k hk => ⟨?_, fun _ _ _ => trivial⟩
  obtain ⟨allocation, ha⟩ := h.arranged
  obtain ⟨k', hok, hconfined, -⟩ := h.clear_confined hn hd hk.used
  rw [Call.after_of_ok hok]
  refine hconfined.retains (fun j l hl r hr w v hw hv => .inl ?_) hk
  obtain ⟨s, u, side, hu, hlives, hforward, hallocation⟩ := ha.cleared_allocation hr
  rw [hallocation v hv]
  refine ha.part_apart ht hl hw hu hlives ?_
  rintro s' heq rfl
  cases heq
  rw [ht, Option.some.injEq] at hu
  have hstate := hforward rfl
  rw [← hu, kind] at hstate
  cases hstate

/-- Anything but a transfer into the input leaves it as it is, whether or not it succeeds. -/
theorem Compiled.use_retains (unwritten : m.Unwritten ⟨i⟩) {u : Use α} (hu : ¬u.gives ⟨i⟩) :
    Call.Keeps (m.Retains t values) u.call fun _ => True := by
  have hread : ∀ (x : Call α (Array α)), Call.Keeps (m.Retains t values) x (fun _ => True) →
      Call.Keeps (m.Retains t values) (discard x) fun _ => True := fun x hx => by
    rw [Call.discard_eq]
    exact hx.bind fun _ _ => .pure trivial
  have hwrite : ∀ w : HostWrite α, w.target ≠ ⟨i⟩ → ∀ k, m.Retains t values k →
      m.Retains t values (w.perform k) := fun w hw k hk =>
    (h.write_rests ht hk.used w).retains (fun j s _ heq => hw (by rw [heq])) hk
  cases u with
  | pass p => exact h.run_retains hn hd ht kind unwritten p
  | clearBuffers => exact h.clear_retains hn hd ht kind
  | batchDone =>
    exact (h.run_retains hn hd ht kind unwritten .update).bind fun _ _ =>
      h.clear_retains hn hd ht kind
  | readTensor id timestep => exact hread _ (keeps_readTensor id timestep)
  | readGradient id timestep => exact hread _ (keeps_readGradient id timestep)
  | readAuxiliary id index => exact hread _ (keeps_readAuxiliary id index)
  | writeTensor id timestep data =>
    exact fun k hk => ⟨hwrite (.tensor id timestep data) hu k hk, fun _ _ _ => trivial⟩
  | writeSequence id data steps =>
    exact fun k hk => ⟨hwrite (.sequence id data steps) hu k hk, fun _ _ _ => trivial⟩
  | writeGradient id timestep data =>
    exact fun k hk => ⟨(h.writeGradient_rests ht hk.used id timestep data).retains
      (fun j s hs => by cases hs) hk, fun _ _ _ => trivial⟩

end

end

/-! ### Snapshots -/

section

variable {P : Network Binary32 → Prop}

theorem keeps_saveSnapshot (ids : List TensorId) :
    Call.Keeps P (saveSnapshot ids) fun _ => True := by
  have hrecord : ∀ id, Call.Keeps P (snapshotRecord id) fun _ => True := by
    intro id
    refine Call.keeps_get.bind fun n _ => (Call.keeps_ofExcept _).bind fun t _ => ?_
    cases t.name with
    | none => exact .throw
    | some name => exact (keeps_readTensor id 0).bind fun _ _ => .pure trivial
  have hrecords : ∀ ids : List TensorId, Call.Keeps P (ids.mapM snapshotRecord) fun _ => True := by
    intro ids
    induction ids with
    | nil => exact .pure trivial
    | cons id ids ih =>
      rw [List.mapM_cons]
      exact (hrecord id).bind fun _ _ => ih.bind fun _ _ => .pure trivial
  exact keeps_requireCompiled.bind fun _ _ => (hrecords ids).bind fun _ _ => Call.keeps_ofExcept _

theorem keeps_loadSnapshot (stream : Except Error Bytes) {ids : List TensorId}
    (write : ∀ id ∈ ids, ∀ data, Call.Keeps P (writeTensor id 0 data) fun _ => True) :
    Call.Keeps P (loadSnapshot stream ids) fun _ => True := by
  refine keeps_requireCompiled.bind fun _ _ => (Call.keeps_ofExcept _).bind fun bytes _ => ?_
  refine .forM fun id hid => Call.keeps_get.bind fun n _ => (Call.keeps_ofExcept _).bind fun t _ => ?_
  cases t.name with
  | none => exact .throw
  | some name => exact (Call.keeps_ofExcept _).bind fun values _ => write id hid _

end

/-- What becomes of a compiled network by uses, of which some may fail, as long as the host gives a
tensor no values. -/
inductive Served (x : TensorId) (start : Network Binary32) : Network Binary32 → Prop
  | start : Served x start start
  | use {k : Network Binary32} (u : Use Binary32) (other : ¬u.gives x) (h : Served x start k) :
      Served x start (Call.after u.call k)
  | save {k : Network Binary32} (ids : List TensorId) (h : Served x start k) :
      Served x start (Call.after (saveSnapshot ids) k)
  | load {k : Network Binary32} (stream : Except Error Bytes) (ids : List TensorId)
      (other : x ∉ ids) (h : Served x start k) :
      Served x start (Call.after (loadSnapshot stream ids) k)

/-- An input that no operator writes changes by transfers into it and by nothing else: passes in
any order and number, and all else that is asked of a compiled network, leave its forward slots as
they are, whether or not they succeed. -/
theorem Assembled.input_lasts {b : Backend Binary32} {config : NetworkConfig}
    {n m k k' : Network Binary32} {batch : Nat} {x : TensorId} {t : Tensor} (idle : b.Idle)
    (built : Assembled (Network.new b config) n) (input : n.tensor x = .ok t)
    (kind : t.kind = .input) (unwritten : n.Unwritten x) (compiled : compile batch n = .ok ⟨⟩ m)
    (used : m.Used k) (served : Served x k k') (timestep : Nat) :
    k'.held x.index (.slot .forward timestep) = k.held x.index (.slot .forward timestep) := by
  have hout := built.outline
  have idle' : Backend.Idle { b with validation := config.validate } :=
    ⟨idle.dispatches, idle.sound⟩
  have h := compile_ok hout idle' compiled
  have hd := compile_divided hout idle' compiled
  rw [tensor_ok_iff] at input
  obtain ⟨t', ht, hs⟩ := h.tensor x.index t input
  have hkind : t'.kind = .input := by
    rw [batchTensor_eq] at hs
    rw [hs]
    exact kind
  have hunwritten : m.Unwritten x := by
    intro node hnode
    obtain ⟨j, hj⟩ := Array.getElem?_of_mem hnode
    obtain ⟨node', hj', -, -, hout, -⟩ := h.expanded.origin hj
    rw [hout]
    exact unwritten node' (Array.mem_of_getElem? hj')
  have hretains : m.Retains t' (fun j => t'.values k.backend (.slot .forward j)) k' := by
    have huse : ∀ u : Use Binary32, ¬u.gives x → Call.Keeps
        (m.Retains t' fun j => t'.values k.backend (.slot .forward j)) u.call fun _ => True :=
      fun u hu => h.use_retains hout hd ht hkind hunwritten hu
    induction served with
    | start => exact ⟨used, fun _ => rfl⟩
    | use u other _ ih => exact (huse u other _ ih).1
    | save ids _ ih => exact (keeps_saveSnapshot ids _ ih).1
    | load stream ids other _ ih =>
      refine (keeps_loadSnapshot stream (fun id hid data => ?_) _ ih).1
      exact huse (.writeTensor id 0 data) fun heq => other (heq ▸ hid)
  rw [hretains.used.held_eq ht, used.held_eq ht, hretains.slots]

/-- Two inputs, of which an operator writes the second. -/
def mirroredInput : Network Binary32 :=
  Call.after (addOperatorInto (.activation .relu) [⟨0⟩] ⟨1⟩ 0)
    ((Network.new Backend.host {}).draft [.createInput ⟨1, 1, 1, 1⟩ 1, .createInput ⟨1, 1, 1, 1⟩ 1])

def compiledMirror : Network Binary32 := Call.after (compile 1) mirroredInput

def loadedMirror : Network Binary32 := Call.after (writeTensor ⟨0⟩ 0 #[1]) compiledMirror

set_option maxRecDepth 100000 in
theorem mirroredInput_compile : compile 1 mirroredInput = .ok ⟨⟩ compiledMirror :=
  Call.ok_of_isOk (by decide +kernel)

set_option maxRecDepth 100000 in
/-- The first input after all passes, and after transfers that go elsewhere or fail. -/
theorem mirroredInput_lasts : ∃ k', Served ⟨0⟩ loadedMirror k' ∧
    k'.held 0 (.slot .forward 0) = #[1] := by
  have hbuilt : Assembled (Network.new Backend.host {}) mirroredInput :=
    (Assembled.start.draft _).operatorInto _ _ _ _
  obtain ⟨t, hinput, hkind⟩ : ∃ t, mirroredInput.tensor ⟨0⟩ = .ok t ∧ t.kind = .input :=
    ⟨_, rfl, rfl⟩
  have hunwritten : mirroredInput.Unwritten ⟨0⟩ := by decide +kernel
  have hused : compiledMirror.Used loadedMirror :=
    (Used.refl compiledMirror).written (.tensor ⟨0⟩ 0 #[1])
  have hserved : Served ⟨0⟩ loadedMirror _ :=
    .use .batchDone not_false (.use (.pass .backward) not_false (.use (.pass .forward) not_false
      (.use (.writeTensor ⟨1⟩ 3 #[1]) (by simp [Use.gives]) .start)))
  have hlasts := Assembled.input_lasts Backend.host_idle hbuilt hinput hkind hunwritten
    mirroredInput_compile hused hserved 0
  have hloaded : loadedMirror.held 0 (.slot .forward 0) = #[1] := by decide +kernel
  exact ⟨_, hserved, hlasts.trans hloaded⟩

set_option maxRecDepth 100000 in
/-- An operator may be told to write an input, which then changes by a forward pass. -/
theorem forward_changes_input :
    compile 1 mirroredInput = .ok ⟨⟩ compiledMirror ∧
    (∃ t, compiledMirror.tensor ⟨1⟩ = .ok t ∧ t.kind = .input) ∧
    writeTensor ⟨0⟩ 0 #[1] compiledMirror = .ok ⟨⟩ loadedMirror ∧
    ∃ k, forward loadedMirror = .ok ⟨⟩ k ∧
      loadedMirror.held 1 (.slot .forward 0) = #[0] ∧ k.held 1 (.slot .forward 0) = #[1] := by
  refine ⟨mirroredInput_compile, ?_, Call.ok_of_isOk (by decide +kernel),
    Call.after forward loadedMirror, Call.ok_of_isOk (by decide +kernel), by decide +kernel,
    by decide +kernel⟩
  have hkind : compiledMirror.tensors[1]?.any fun t => t.kind = .input := by decide +kernel
  obtain ⟨t, ht, hinput⟩ := (Option.any_eq_true _ _).mp hkind
  exact ⟨t, tensor_ok_iff.mpr ht, of_decide_eq_true hinput⟩

end Backprop.Network
