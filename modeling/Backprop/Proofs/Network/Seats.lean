import Mathlib
import Backprop.Proofs.Network.Drawing
import Backprop.Proofs.Network.Entrywise
import Backprop.Proofs.Network.ScratchSharing
import Backprop.Proofs.Network.Sized

/-! Networks drawn call by call from operators that work entry by entry. Which shape and how many
timesteps a tensor has is known while the network is drawn, and where its operators find it is
known once the network is compiled. -/

namespace Backprop

variable {α : Type} {ts : List Tensor} {i : Nat} {t : Tensor}

theorem getElem?_append_some (h : ts[i]? = some t) (us : List Tensor) :
    (ts ++ us)[i]? = some t := by
  rw [List.getElem?_append_left (List.getElem?_eq_some_iff.mp h).1, h]

theorem Node.Entrywise.append {node : Node α} (h : node.Entrywise ts.toArray) (us : List Tensor) :
    node.Entrywise (ts ++ us).toArray := by
  obtain ⟨hop, a, c, o, out, ha, hc, ho, hrest⟩ := h
  rw [List.getElem?_toArray] at ha hc ho
  refine ⟨hop, a, c, o, out, ?_, ?_, ?_, hrest⟩
  all_goals rw [List.getElem?_toArray]
  · exact getElem?_append_some ha us
  · exact getElem?_append_some hc us
  · exact getElem?_append_some ho us

theorem Operator.sequenceLength_entrywise {op : Operator α} (h : op.entrywise = true)
    (bound : List Tensor) : op.sequenceLength bound =
      bound.foldl (fun longest t => max longest (t.sequence + t.timeOffset)) 1 := by
  cases op <;> simp_all [Operator.entrywise, Operator.sequenceLength]

namespace Network

/-- A tensor of this shape over so many timesteps. It follows the batch, or stays as it is. -/
def Seat (ts : List Tensor) (x : TensorId) (follows : Bool) (s : Shape) (steps : Nat) : Prop :=
  ∃ t, ts[x.index]? = some t ∧ t.kind.followsBatch = follows ∧ t.shape = s ∧ t.sequence = steps ∧
    t.timeOffset = 0

/-- A drawing whose operators all work entry by entry. -/
structure Rowed (b : Backend α) (ts : List Tensor) (nodes : List (Node α)) (n : Network α) :
    Prop where
  drawn : Drawn b ts nodes n
  entrywise : ∀ node ∈ nodes, node.Entrywise ts.toArray

variable {nodes : List (Node α)} {x y o : TensorId} {s s' out : Shape}
  {follows : Bool} {steps steps' : Nat} {op : Operator α} {node : Node α}
  {b : Backend α} {n n' m k : Network α} {batch : Nat}

theorem Seat.append (h : Seat ts x follows s steps) (us : List Tensor) :
    Seat (ts ++ us) x follows s steps :=
  h.imp fun _ ht => ⟨getElem?_append_some ht.1 us, ht.2⟩

theorem Rowed.grow {us : List Tensor} (h : Rowed b ts nodes n)
    (hd : Drawn b (ts ++ us) (nodes ++ [node]) n') (hnode : node.Entrywise (ts ++ us).toArray) :
    Rowed b (ts ++ us) (nodes ++ [node]) n' := by
  refine ⟨hd, fun other ho => ?_⟩
  obtain ho | ho := List.mem_append.mp ho
  · exact (h.entrywise other ho).append us
  · rw [List.mem_singleton.mp ho]
    exact hnode

theorem Rowed.addBinary (h : Rowed b ts nodes n) (hx : Seat ts x true s steps)
    (hy : Seat ts y (!op.takesParameter) s' steps') (hle : steps' ≤ steps) (hs : 0 < steps)
    (hfit : op.OnRows s s' out) (hout : 0 < out.elements) (hentry : op.entrywise = true)
    (harity : op.arity = 2) (hop : InStep op) :
    Call.Yields (addOperator op [x, y] 0) n fun id n' => id = ⟨ts.length⟩ ∧
      Rowed b (ts ++ [Tensor.ofKind .intermediate out steps])
        (nodes ++ [{ op, inputs := [x, y], output := ⟨ts.length⟩, timeOffset := 0 }]) n' := by
  obtain ⟨t, ht, htf, rfl, rfl, hto⟩ := hx
  obtain ⟨u, hu, huf, rfl, rfl, huo⟩ := hy
  have hshape : op.outputShape [t.shape, u.shape] = .ok out := by
    simp [Operator.outputShape, harity, hfit.shape]
  have hlength : op.sequenceLength [t, u] = t.sequence := by
    rw [Operator.sequenceLength_entrywise hentry]
    simp only [List.foldl_cons, List.foldl_nil, hto, huo]
    omega
  have operands : List.Forall₂ (fun x t => ts[x.index]? = some t) [x, y] [t, u] :=
    .cons ht (.cons hu .nil)
  obtain ⟨id, n', hadd, rfl, hd⟩ := h.drawn.addOperator hop operands hshape (by omega)
  rw [hlength] at hd
  refine ⟨_, n', hadd, rfl, h.grow hd ⟨hentry, t, u, .ofKind .intermediate out t.sequence, out,
    ?_, ?_, ?_, hfit, rfl, Operator.shapeOf_single hfit.shape hfit.first, htf, huf, rfl⟩⟩
  all_goals rw [List.getElem?_toArray]
  · exact getElem?_append_some ht _
  · exact getElem?_append_some hu _
  · exact List.getElem?_concat_length ..

theorem Rowed.addUnary (h : Rowed b ts nodes n) (hx : Seat ts x true s steps) (hs : 0 < steps)
    (hfit : op.OnRows s s out) (hout : 0 < out.elements) (hentry : op.entrywise = true)
    (harity : op.arity = 1) (hop : InStep op) :
    Call.Yields (addOperator op [x] 0) n fun id n' => id = ⟨ts.length⟩ ∧
      Rowed b (ts ++ [Tensor.ofKind .intermediate out steps])
        (nodes ++ [{ op, inputs := [x], output := ⟨ts.length⟩, timeOffset := 0 }]) n' := by
  obtain ⟨t, ht, htf, rfl, rfl, hto⟩ := hx
  have hshape : op.outputShape [t.shape] = .ok out := by
    simp [Operator.outputShape, harity, hfit.shape]
  have hlength : op.sequenceLength [t] = t.sequence := by
    rw [Operator.sequenceLength_entrywise hentry]
    simp only [List.foldl_cons, List.foldl_nil, hto]
    omega
  have htakes : op.takesParameter = false := by
    cases op <;> simp_all [Operator.arity, Operator.takesParameter]
  have operand : List.Forall₂ (fun x t => ts[x.index]? = some t) [x] [t] := .cons ht .nil
  obtain ⟨id, n', hadd, rfl, hd⟩ := h.drawn.addOperator hop operand hshape (by omega)
  rw [hlength] at hd
  refine ⟨_, n', hadd, rfl, h.grow hd ⟨hentry, t, t, .ofKind .intermediate out t.sequence, out,
    ?_, ?_, ?_, hfit, rfl, Operator.shapeOf_single hfit.shape hfit.first, htf,
    by rw [htf, htakes]; rfl, rfl⟩⟩
  all_goals rw [List.getElem?_toArray]
  · exact getElem?_append_some ht _
  · exact getElem?_append_some ht _
  · exact List.getElem?_concat_length ..

theorem Rowed.feed {u : Tensor} (h : Rowed b ts nodes n) (hop : op = .copy 1 ∨ op = .copyInit)
    (hx : Seat ts x true s steps) (hone : s.w = 1) (hpos : 0 < s.elements)
    (hu : ts[y.index]? = some u) (hk : u.kind = .recurrent) (huone : u.shape.w = 1) (hne : x ≠ y)
    (rows : s.rowElements = u.shape.rowElements)
    (first : op = .copyInit → ∀ node ∈ nodes, y ∉ node.inputs) :
    Call.Yields (addOperatorInto op [x] y 0) n fun _ n' =>
      Rowed b ts (nodes ++ [{ op, inputs := [x], output := y, timeOffset := 0 }]) n' := by
  obtain ⟨t, ht, htf, rfl, rfl, hto⟩ := hx
  obtain ⟨id, n', hadd, rfl, hd⟩ := h.drawn.feed hop ht hu hk hne rows first
  have hfit : op.OnRows t.shape t.shape t.shape := by
    refine ⟨?_, hone, fun _ => hone, ⟨hpos, hpos⟩, ?_⟩
    · obtain rfl | rfl := hop <;> rfl
    · obtain rfl | rfl := hop <;> trivial
  have hentry : op.entrywise = true ∧ op.takesParameter = false := by
    obtain rfl | rfl := hop <;> exact ⟨rfl, rfl⟩
  rw [← List.append_nil ts] at hd
  have hgrow := h.grow hd ⟨hentry.1, t, t, u, t.shape,
    by rwa [List.getElem?_toArray, List.append_nil], by rwa [List.getElem?_toArray, List.append_nil],
    by rwa [List.getElem?_toArray, List.append_nil], hfit, ?_, huone, htf,
    by rw [htf, hentry.2]; rfl, by rw [hk]; rfl⟩
  · rw [List.append_nil] at hgrow
    exact ⟨_, n', hadd, hgrow⟩
  · rw [Shape.elements_eq_rowElements_mul, Shape.elements_eq_rowElements_mul, huone, hone, rows]

/-! ### After compilation -/

/-- At a step operators find the tensor, of this shape, in this slot. -/
structure Found (m : Network α) (x : TensorId) (s : Shape) (step slot : Nat) : Prop where
  shape : m.shapeOf x = s
  current : m.current .forward x step = ⟨x.index, .forward, slot⟩

theorem Rowed.each (h : Rowed b ts nodes n) : n.Each fun ts node => node.Entrywise ts := by
  intro i node hi
  have hplain : n.plain = ts.toArray := by rw [← h.drawn.tensors, Array.toArray_toList]
  rw [hplain]
  exact h.entrywise node (List.mem_of_getElem? ((h.drawn.node i).symm.trans hi))

/-- Outputs are written once when no two operators write one tensor in one place. -/
theorem Drawn.feedsOnce (h : Drawn b ts nodes n)
    (nodup : (nodes.map fun node => (node.output, node.op.place)).Nodup) : n.FeedsOnce := by
  intro i j a c t hi hj _ _ hout hop
  have hkey : ∀ {i : Nat} {node : Node α}, n.nodes[i]? = some node →
      (nodes.map fun node => (node.output, node.op.place))[i]? =
        some (node.output, node.op.place) := fun hi => by
    rw [List.getElem?_map, ← h.node, hi, Option.map_some]
  have hlt := (List.getElem?_eq_some_iff.mp (hkey hi)).1
  refine (List.getElem?_inj hlt nodup).mp ?_
  rw [hkey hi, hkey hj, hout, hop]

theorem Rowed.tensor (h : Rowed b ts nodes n) (ht : ts[i]? = some t) :
    ∃ u, n.tensors[i]? = some u ∧ u.plain = t := by
  have hplain := (h.drawn.tensor i).trans ht
  rwa [plain_getElem?, Option.map_eq_some_iff] at hplain

theorem Rowed.sized (h : Rowed b ts nodes n) (he : Expanded n m batch) (hb : 0 < batch)
    (exact : ∀ node ∈ n.nodes,
      node.op.shapeOf (n.shapeOf node.first) (n.shapeOf node.last) = .ok (n.shapeOf node.output)) :
    Sized m := by
  refine he.sized h.drawn.sketch.1 fun i node hi => ?_
  obtain ⟨hentry, a, c, o, out, ha, hc, ho, hfit, -, -, hka, hkc, hko⟩ := h.each i node hi
  have hreduced := h.each.reducedOutputs
  have hshape : ∀ {x : TensorId} {t : Tensor}, n.plain[x.index]? = some t → n.shapeOf x = t.shape :=
    fun ht => by
      rw [plain_getElem?, Option.map_eq_some_iff] at ht
      obtain ⟨u, hu, rfl⟩ := ht
      rw [shapeOf_eq hu]
      rfl
  have hout : out = o.shape := by
    have hexact := exact node (Array.mem_of_getElem? hi)
    rw [hshape ha, hshape hc, hshape ho, hfit.shape] at hexact
    exact Except.ok.inj hexact
  have hlast : m.shapeOf node.last = node.op.second c.shape batch := by
    rw [he.batched_shape hb hreduced hc, hkc, Operator.second]
    cases node.op.takesParameter <;> rfl
  have hslides : node.op.slides = false := by
    cases hop : node.op <;> simp_all [Operator.entrywise, Operator.slides]
  rw [he.batched_shape hb hreduced ha, hlast, he.batched_shape hb hreduced ho, if_pos hka,
    if_pos hko, ← hout]
  refine ⟨?_, ⟨?_, ?_⟩, fun hs => by simp [hslides] at hs, ?_⟩
  · have hrows := Operator.shapeOf_withRows hfit.shape hfit.first hfit.second batch
    have hop : node.op.reducesBatch = false := by
      cases hop : node.op <;> simp_all [Operator.entrywise, Operator.reducesBatch]
    rwa [hop, if_neg Bool.false_ne_true] at hrows
  · rw [Shape.elements_withRows hfit.first]
    exact Nat.mul_pos hfit.pos.1 hb
  · unfold Operator.second
    split
    · exact hfit.pos.2
    · next htakes =>
      rw [Shape.elements_withRows (hfit.second (by simpa using htakes))]
      exact Nat.mul_pos hfit.pos.2 hb
  · cases hop : node.op <;> simp_all [Operator.slides, Operator.InRange]

variable [Scalar α] {c : Backend α} {step slot : Nat}

theorem Rowed.found (h : Rowed b ts nodes n) (hc : Compiled n m batch) (hb : 0 < batch)
    (hx : Seat ts x true s steps) (hs : step < steps) : m.Found x (s.withRows batch) step step := by
  obtain ⟨t, ht, hk, rfl, rfl, -⟩ := hx
  refine ⟨?_, ?_⟩
  · rw [hc.batched_shape hb h.each.reducedOutputs ((h.drawn.tensor _).trans ht), if_pos hk]
  · obtain ⟨u, hu, rfl⟩ := h.tensor ht
    have hne : u.kind ≠ .parameter ∧ u.kind ≠ .scratch := by
      change u.kind.followsBatch = true at hk
      constructor <;> intro hkind <;> rw [hkind] at hk <;> cases hk
    rw [current, hc.slotOf hu, currentSlot_atStep hne.1 hne.2]
    exact congrArg _ (Nat.mod_eq_of_lt hs)

theorem Rowed.found_fixed (h : Rowed b ts nodes n) (hc : Compiled n m batch) (hb : 0 < batch)
    (hx : Seat ts x false s steps) (step : Nat) : m.Found x s step 0 := by
  obtain ⟨t, ht, hk, rfl, rfl, -⟩ := hx
  refine ⟨?_, ?_⟩
  · rw [hc.batched_shape hb h.each.reducedOutputs ((h.drawn.tensor _).trans ht), if_neg (by simp [hk])]
  · obtain ⟨u, hu, rfl⟩ := h.tensor ht
    have hzero : (u.atStep step).currentSlot = 0 := by
      change u.kind.followsBatch = false at hk
      have hkind : (u.atStep step).kind = u.kind := rfl
      rw [Tensor.currentSlot, hkind]
      cases hu' : u.kind <;> simp_all [TensorKind.followsBatch]
    rw [current, hc.slotOf hu, Tensor.chosen, hzero]

theorem Obeys.computed (hf : m.Obeys c node step) {j j' : Nat}
    (hx : m.Found node.first s step j) (hy : m.Found node.last s' step j')
    (ho : m.shapeOf node.output = out)
    (htarget : m.target .forward node step = ⟨node.output.index, .forward, slot⟩) :
    Computed (told out.elements) out.elements
      (fun i => node.op.entry s s' (m.values c ⟨node.first.index, .forward, j⟩)
      (m.values c ⟨node.last.index, .forward, j'⟩) i 0)
      (m.values c ⟨node.output.index, .forward, slot⟩) := by
  unfold Obeys at hf
  rwa [hx.shape, hx.current, hy.shape, hy.current, ho, htarget] at hf

theorem Rowed.leaves (h : Rowed b ts nodes n) (hc : Compiled n m batch)
    (obeyed : n.Obeyed m c) (hn : node ∈ nodes) (ho : ts[node.output.index]? = some t)
    (hoff : node.timeOffset = 0) (hs : step < t.sequence)
    (hinit : node.op.place = .timestep 0 → step = 0) : m.Obeys c node step := by
  obtain ⟨i, hi⟩ := List.getElem?_of_mem hn
  obtain ⟨u, hu, rfl⟩ := h.tensor ho
  obtain ⟨v, hv, hsame⟩ := hc.tensor _ u hu
  rw [batchTensor_eq] at hsame
  refine obeyed i node step ((h.drawn.node i).trans hi) ⟨⟨v, hv, hoff ▸ Nat.zero_le _, ?_⟩,
    fun hskip => hskip.2 (hinit hskip.1)⟩
  rw [hsame]
  exact hs

theorem Rowed.row_computed (h : Rowed b ts nodes n) (hc : Compiled n m batch) (hb : 0 < batch)
    (obeyed : n.Obeyed m c) (hn : node ∈ nodes) (hoff : node.timeOffset = 0)
    (ho : ts[node.output.index]? = some (.ofKind .intermediate out steps)) (hs : step < steps)
    (hop : InStep node.op ∧ node.op ≠ .copyInit) {j : Nat} (hx : Seat ts node.first true s steps)
    (hy : m.Found node.last s' step j) :
    Computed (told (out.withRows batch).elements) (out.withRows batch).elements
      (fun i => node.op.entry (s.withRows batch) s'
      (m.values c ⟨node.first.index, .forward, step⟩) (m.values c ⟨node.last.index, .forward, j⟩) i 0)
      (m.values c ⟨node.output.index, .forward, step⟩) := by
  have hplace : node.op.place ≠ .timestep 0 := by
    obtain ⟨-, hinit⟩ := hop
    cases hnode : node.op <;> simp_all [Operator.place]
  have hlt : step < max steps 1 := hs.trans_le (Nat.le_max_left ..)
  refine (h.leaves hc obeyed hn ho hoff hlt (absurd · hplace)).computed (h.found hc hb hx hs) hy ?_ ?_
  · exact hc.batched_shape hb h.each.reducedOutputs ((h.drawn.tensor _).trans ho)
  · obtain ⟨u, hu, hplain⟩ := h.tensor ho
    have hkind : u.kind = .intermediate := congrArg Tensor.kind hplain
    have hsequence : u.sequence = max steps 1 := congrArg Tensor.sequence hplain
    rw [target, hc.slotOf hu, slot_of_intermediate hkind hop.1 (hsequence ▸ hlt) (absurd · hplace)]

theorem Rowed.feed_computed (h : Rowed b ts nodes n) (hc : Compiled n m batch) (hb : 0 < batch)
    (obeyed : n.Obeyed m c)
    (hn : { op, inputs := [x], output := y, timeOffset := 0 } ∈ nodes)
    (ho : ts[y.index]? = some (.ofKind .recurrent out steps)) (hx : Seat ts x true s steps')
    (hs : step < steps ∧ step < steps')
    (hop : op = .copy 1 ∧ slot = step + 1 ∨ op = .copyInit ∧ step = 0 ∧ slot = 0) :
    Computed (told (out.withRows batch).elements) (out.withRows batch).elements
      (read (m.values c ⟨x.index, .forward, step⟩))
      (m.values c ⟨y.index, .forward, slot⟩) := by
  have hlt : step < max steps 1 := hs.1.trans_le (Nat.le_max_left ..)
  have hfound := h.found hc hb hx hs.2
  have hshape : m.shapeOf y = out.withRows batch :=
    hc.batched_shape hb h.each.reducedOutputs ((h.drawn.tensor _).trans ho)
  obtain ⟨u, hu, hplain⟩ := h.tensor ho
  have hkind : u.kind = .recurrent := congrArg Tensor.kind hplain
  have hsequence : u.sequence = max steps 1 := congrArg Tensor.sequence hplain
  obtain ⟨rfl, rfl⟩ | ⟨rfl, rfl, rfl⟩ := hop
  · refine (h.leaves hc obeyed hn ho rfl hlt nofun).computed hfound hfound hshape ?_
    rw [target, hc.slotOf hu, slot_of_recurrent hkind rfl (hsequence ▸ hlt)]
  · refine (h.leaves hc obeyed hn ho rfl hlt fun _ => rfl).computed hfound hfound hshape ?_
    rw [target, hc.slotOf hu]
    rfl

theorem Rowed.reads (h : Rowed b ts nodes n) (hc : Compiled n m batch) (hk : m.SameGraphAs k)
    (ht : ts[x.index]? = some t) (hslot : slot < t.slotCount)
    (hp : t.kind = .parameter → slot = 0) :
    readTensor x slot k = .ok (m.values k.backend ⟨x.index, .forward, slot⟩) k := by
  obtain ⟨u, hu, rfl⟩ := h.tensor ht
  obtain ⟨v, hv, hsame⟩ := hc.tensor _ u hu
  rw [batchTensor_eq] at hsame
  refine (hc.lowered h.drawn.sketch.1).readTensor_ok hc.stage hk hv ?_ ?_
  · rw [hsame]
    exact hslot
  · rw [hsame]
    exact hp

/-- The first forward pass of such a network succeeds. What stands in a tensor that no operator
writes stays there. -/
theorem Rowed.forward (h : Rowed b ts nodes n)
    (nodup : (nodes.map fun node => (node.output, node.op.place)).Nodup) (hc : Compiled n m batch)
    (hb : 0 < batch) (written : HostWritten m k) :
    ∃ k', Network.forward k = .ok ⟨⟩ k' ∧ m.SameGraphAs k ∧ m.SameGraphAs k' ∧
      n.Obeyed m k'.backend ∧ ∀ (x : TensorId) (t : Tensor) (slot : Nat),
        ts[x.index]? = some t → slot < t.slotCount → x ∉ nodes.map (·.output) →
          m.values k'.backend ⟨x.index, .forward, slot⟩ =
            m.values k.backend ⟨x.index, .forward, slot⟩ := by
  obtain ⟨k', hforward, hk, hk', obeyed, hother⟩ := h.drawn.sketch.forward_obeys
    (h.drawn.feedsOnce nodup) h.each hc hb written
  refine ⟨k', hforward, hk, hk', obeyed, fun x t slot ht hslot hx => ?_⟩
  obtain ⟨u, hu, rfl⟩ := h.tensor ht
  refine hother _ (hc.has hu hslot) fun i node hi heq => hx ?_
  have heq' : node.output = x := TensorId.eq_of_index heq
  rw [← heq']
  exact List.mem_map_of_mem (List.mem_of_getElem? ((h.drawn.node i).symm.trans hi))

theorem Rowed.compiled_tensor (h : Rowed b ts nodes n) (hc : Compiled n m batch) (hb : 0 < batch)
    (ht : ts[i]? = some t) (follows : t.kind.followsBatch = true) :
    ∃ u, m.tensors[i]? = some u ∧ u.kind = t.kind ∧ u.sequence = t.sequence ∧
      u.shape = t.shape.withRows batch := by
  have hshape := hc.batched_shape hb h.each.reducedOutputs (x := ⟨i⟩) ((h.drawn.tensor _).trans ht)
  rw [if_pos follows] at hshape
  obtain ⟨u, hu, rfl⟩ := h.tensor ht
  obtain ⟨v, hv, hsame⟩ := hc.tensor _ u hu
  rw [shapeOf_eq (x := ⟨i⟩) hv] at hshape
  rw [batchTensor_eq] at hsame
  refine ⟨v, hv, ?_, ?_, hshape⟩
  · rw [hsame]
    rfl
  · rw [hsame]
    rfl

theorem Rowed.blank (h : Rowed b ts nodes n) (hc : Compiled n m batch) (hb : 0 < batch)
    (ht : ts[i]? = some (.ofKind .recurrent s steps)) (hs : slot < steps + 1) :
    m.Has ⟨i, .forward, slot⟩ ∧ m.values m.backend ⟨i, .forward, slot⟩ =
      Array.replicate (s.withRows batch).elements 0 := by
  obtain ⟨u, hu, hkind, hsteps, hshape⟩ := h.compiled_tensor hc hb ht rfl
  have hslot : slot < u.slotCount := by
    change u.kind = .recurrent at hkind
    change u.sequence = max steps 1 at hsteps
    rw [Tensor.slotCount, hkind, hsteps]
    exact hs.trans_le (Nat.succ_le_succ (Nat.le_max_left ..))
  have hplace : m.Has ⟨i, .forward, slot⟩ := ⟨u, hu, u.lives_forward, hslot⟩
  have hblank := (hc.lowered h.drawn.sketch.1).blank (p := ⟨i, .forward, slot⟩) hu hplace
    (by rw [hkind]; rintro ⟨⟩)
  rw [hshape] at hblank
  exact ⟨hplace, hblank⟩

theorem Rowed.input_filled (h : Rowed b ts nodes n) (hc : Compiled n m batch) (hb : 0 < batch)
    (ht : ts[x.index]? = some (.ofKind .input s steps)) {data : Array α}
    (hd : data.size = (s.withRows batch).elements) :
    ∃ k, HostWritten m k ∧ m.SameGraphAs k ∧ k.readings x 0 = .ok data ∧
      ∀ q, m.Has q → q ≠ ⟨x.index, .forward, 0⟩ → m.values k.backend q = m.values m.backend q := by
  have hlowered := hc.lowered h.drawn.sketch.1
  obtain ⟨allocation, ha⟩ := hlowered.arranged
  obtain ⟨u, hu, hkind, -, hshape⟩ := h.compiled_tensor hc hb ht rfl
  have hslot : 0 < u.slotCount := Tensor.slotCount_pos (hlowered.sequence _ u hu).1
  have hplace : m.Has ⟨x.index, .forward, 0⟩ := ⟨u, hu, u.lives_forward, hslot⟩
  have hsame := SameGraphAs.refl m
  have hsize : data.size = u.shape.elements := hd.trans (congrArg Shape.elements hshape).symm
  obtain ⟨hk, hself, hother⟩ := hlowered.withContents hsame hplace
    (hsize.trans (hlowered.size_values hsame.layout hplace hu).symm)
  have hwrite : writeTensor x 0 data m = .ok ⟨⟩ (m.withContents _ data) :=
    ha.writeTensor_ok (hsame.shares hc.stage) hu hslot (fun _ => rfl) hsize
  have written := HostWritten.start.write (.tensor x 0 data)
    (⟨u, tensor_ok_iff.mpr hu, .inl hkind⟩ : m.IsHeld x)
  rw [HostWrite.perform, Call.after_of_ok hwrite] at written
  refine ⟨_, written, hk, ?_, hother⟩
  rw [readings, hlowered.readTensor_ok hc.stage hk hu hslot fun _ => rfl]
  exact congrArg Except.ok hself

/-- The first forward pass leaves a first state as it was, in the entries of which the copy is not
told. -/
theorem Rowed.forward_keeps (h : Rowed b ts nodes n)
    (nodup : (nodes.map fun node => (node.output, node.op.place)).Nodup) (hc : Compiled n m batch)
    (hb : 0 < batch) (written : HostWritten m k)
    (hn : { op := .copyInit, inputs := [x], output := y, timeOffset := 0 } ∈ nodes)
    (ht : ts[y.index]? = some t) (follows : t.kind.followsBatch = true) (hs : 0 < t.sequence)
    (hx : Seat ts x true s steps) :
    ∃ k', Network.forward k = .ok ⟨⟩ k' ∧ m.SameGraphAs k' ∧
      ∀ j, told (s.withRows batch).elements ≤ j →
        (m.values k'.backend ⟨y.index, .forward, 0⟩)[j]? =
          (m.values k.backend ⟨y.index, .forward, 0⟩)[j]? := by
  obtain ⟨k', hforward, -, hk', hsolving⟩ := h.drawn.sketch.forward_solves
    (h.drawn.feedsOnce nodup) h.each hc hb written
  refine ⟨k', hforward, hk', fun j hj => ?_⟩
  obtain ⟨i, hi⟩ := List.getElem?_of_mem hn
  obtain ⟨node, hnode, hop, hin, hout, hoff⟩ := hc.counterpart ((h.drawn.node i).trans hi)
  obtain ⟨u, hu, -, hsequence, -⟩ := h.compiled_tensor hc hb ht follows
  have hactive : m.Computes node 0 :=
    ⟨⟨u, hout ▸ hu, hoff.le, hsequence ▸ hs⟩, fun hlater => hlater.2 rfl⟩
  have hsolved := hsolving.solved i node 0 hnode hactive
    (.inl ((hc.lowered h.drawn.sketch.1).active_lt hnode hactive.1))
  have hfirst : node.first = x := by rw [Node.first, hin]; rfl
  have hshape : m.shapeOf node.first = s.withRows batch := by
    obtain ⟨v, hv, hfollows, rfl, -, -⟩ := hx
    obtain ⟨w, hw, -, -, hw'⟩ := h.compiled_tensor hc hb hv hfollows
    rw [hfirst, shapeOf_eq hw, hw']
  have htarget : m.target .forward node 0 = ⟨y.index, .forward, 0⟩ := by
    rw [target, hout, hop, Network.slotOf, hu]
    rfl
  have hrest := hsolved.copyInit_rest hop (hshape ▸ hj)
  rwa [htarget] at hrest

end Network

end Backprop
