import Mathlib
import Backprop.Proofs.Model.GatedUnit
import Backprop.Proofs.Network.Progress

/-! What a gated unit computes. A step makes a new state of the input and of the old state, and one
forward pass takes as many steps as there are timesteps, each from the state that the one before
has left. -/

namespace Backprop

open Network Kernel

variable {α : Type} [Scalar α]

/-- Values of the parameters of a gate. -/
structure GateWeights (α : Type) where
  u : Array α
  w : Array α
  b : Array α

def Network.inSlot (m : Network α) (c : Backend α) (x : TensorId) (slot : Nat) : Array α :=
  m.values c ⟨x.index, .forward, slot⟩

def GateParams.weights (p : GateParams) (m : Network α) (c : Backend α) : GateWeights α :=
  ⟨m.inSlot c p.u 0, m.inSlot c p.w 0, m.inSlot c p.b 0⟩

def GateParams.Reads (p : GateParams) (k : Network α) (v : GateWeights α) : Prop :=
  k.readings p.u 0 = .ok v.u ∧ k.readings p.w 0 = .ok v.w ∧ k.readings p.b 0 = .ok v.b

namespace GatedUnit

/-! ### One step -/

def productEntry (x u : Array α) (k n j : Nat) : Except Error α := do
  return 1 * (← dotProduct x u n k (j / n) (j % n)) + 0 * 0

def gateEntry (f : Activation) (p : GateWeights α) (x s : Array α) (k n j : Nat) :
    Except Error α := do
  let sum := (← productEntry x p.u k n j) + (← productEntry s p.w n n j)
  return f.value (sum + (← read p.b (j % n)))

def mixedEntry (z c s : Array α) (j : Nat) : Except Error α := do
  return (1 - (← read z j)) * (← read c j) + (← read z j) * (← read s j)

/-- The new state follows from the input and the old state. Of `count` entries the first `shown`
are looked at, and sums run over `k` inputs and `n` units. -/
def Advances (z r h : GateWeights α) (k n shown count : Nat) (x s next : Array α) : Prop :=
  ∃ update reset seen candidate : Array α,
    Computed shown count (gateEntry .sigmoid z x s k n) update ∧
    Computed shown count (gateEntry .sigmoid r x s k n) reset ∧
    Computed shown count (fun j => do return (← read s j) * (← read reset j)) seen ∧
    Computed shown count (gateEntry .tanh h x seen k n) candidate ∧
    Computed shown count (mixedEntry update candidate s) next

theorem Advances.copied {z r h : GateWeights α} {k n shown count : Nat}
    {x s next after : Array α} (hnext : Advances z r h k n shown count x s next)
    (hcopied : Computed shown count (read next) after) :
    Advances z r h k n shown count x s after := by
  obtain ⟨update, reset, seen, candidate, hupdate, hreset, hseen, hcandidate, hmixed⟩ := hnext
  exact ⟨update, reset, seen, candidate, hupdate, hreset, hseen, hcandidate,
    hcopied.congr fun j hj => hmixed.read hj⟩

/-! ### What the operators leave -/

/-- A drawing that has been compiled, and whose operators have run. -/
structure Settled (b : Backend α) (ts : List Tensor) (nodes : List (Node α)) (net m : Network α)
    (batch : Nat) (c : Backend α) : Prop where
  rowed : Rowed b ts nodes net
  compiled : Compiled net m batch
  pos : 0 < batch
  obeyed : net.Obeyed m c

theorem told_pos {n : Nat} (hn : 0 < n) : 0 < told n := by
  unfold told
  omega

theorem elements_rows (n batch : Nat) : ((rowShape n).withRows batch).elements = n * batch := by
  rw [Shape.elements_withRows rfl, elements_rowShape]

namespace Settled

variable {b c : Backend α} {ts : List Tensor} {nodes : List (Node α)} {net m : Network α}
  {x y s : TensorId} {a s₁ s₂ : Shape} {n steps batch step i j : Nat} {o : Operator α}

theorem binary (h : Settled b ts nodes net m batch c)
    (hn : { op := o, inputs := [x, y], output := ⟨i⟩, timeOffset := 0 } ∈ nodes)
    (ho : ts[i]? = some (rowTensor n steps)) (hs : step < steps)
    (hop : InStep o ∧ o ≠ .copyInit) (hx : Seat ts x true s₁ steps)
    (hy : m.Found y s₂ step j) :
    Computed (told (n * batch)) (n * batch)
      (fun i => o.entry (s₁.withRows batch) s₂ (m.inSlot c x step) (m.inSlot c y j) i 0)
      (m.inSlot c ⟨i⟩ step) := by
  rw [← elements_rows]
  exact h.rowed.row_computed h.compiled h.pos h.obeyed hn rfl ho hs hop hx hy

theorem unary (h : Settled b ts nodes net m batch c)
    (hn : { op := o, inputs := [x], output := ⟨i⟩, timeOffset := 0 } ∈ nodes)
    (ho : ts[i]? = some (rowTensor n steps)) (hs : step < steps)
    (hop : InStep o ∧ o ≠ .copyInit) (hx : Seat ts x true s₁ steps) :
    Computed (told (n * batch)) (n * batch) (fun i => o.entry (s₁.withRows batch)
      (s₁.withRows batch) (m.inSlot c x step) (m.inSlot c x step) i 0) (m.inSlot c ⟨i⟩ step) := by
  rw [← elements_rows]
  exact h.rowed.row_computed h.compiled h.pos h.obeyed hn rfl ho hs hop hx
    (h.rowed.found h.compiled h.pos hx hs)

theorem gate {p : GateParams} {f : Activation} (h : Settled b ts nodes net m batch c)
    (hnodes : gateNodes x s p f i ⊆ nodes)
    (hrows : ∀ j < 5, ts[i + j]? = some (rowTensor n steps)) (seats : GateSeats ts x s p a n steps)
    (hs : step < steps) (hn : 0 < n) :
    Computed (told (n * batch)) (n * batch) (gateEntry f (p.weights m c) (m.inSlot c x step)
      (m.inSlot c s step) (told a.rowElements) (told n)) (m.inSlot c ⟨i + 4⟩ step) := by
  have hseat : ∀ j < 5, Seat ts ⟨i + j⟩ true (rowShape n) steps :=
    fun j hj => ⟨_, hrows j hj, rfl, rfl, Nat.max_eq_left (by omega), rfl⟩
  have hfixed : ∀ {y : TensorId} {s' : Shape}, Seat ts y false s' 1 → m.Found y s' step 0 :=
    fun hy => h.rowed.found_fixed h.compiled h.pos hy step
  have hfirst : ts[i]? = some (rowTensor n steps) := hrows 0 (by omega)
  have hu := h.binary (o := .matMulFlat) (hnodes (by simp [gateNodes])) hfirst hs
    (by simp [InStep]) seats.input (hfixed seats.u)
  have hw := h.binary (o := .matMul) (hnodes (by simp [gateNodes])) (hrows 1 (by omega)) hs
    (by simp [InStep]) seats.state (hfixed seats.w)
  have hsum := h.binary (o := .add 0) (hnodes (by simp [gateNodes])) (hrows 2 (by omega)) hs
    (by simp [InStep]) (hseat 0 (by omega))
    (h.rowed.found h.compiled h.pos (hseat 1 (by omega)) hs)
  have hbiased := h.binary (o := .addBias) (hnodes (by simp [gateNodes])) (hrows 3 (by omega)) hs
    (by simp [InStep]) (hseat 2 (by omega)) (hfixed seats.b)
  have hactive := h.unary (o := .activation f) (hnodes (by simp [gateNodes])) (hrows 4 (by omega))
    hs (by simp [InStep]) (hseat 3 (by omega))
  refine hactive.congr fun j hj => ?_
  have hpos := told_pos hn
  have hrow : ((rowShape n).withRows batch).rowElements = n := by
    simp [rowShape, Shape.withRows, Shape.rowElements]
  have hinput : (.matMulFlat : Operator α).contraction (a.withRows batch) = a.rowElements := rfl
  have hstate : (.matMul : Operator α).contraction ((rowShape n).withRows batch) = n := rfl
  simp only [Operator.entry, hbiased.read hj, hsum.read hj, hu.read hj, hw.read hj, hrow, hinput,
    hstate, remainder, if_neg hpos.ne', Nat.add_zero, gateEntry, productEntry, GateParams.weights,
    bind_assoc, pure_bind, Except.ok_bind]

theorem unit {p : GatedUnit} (h : Settled b ts nodes net m batch c)
    (hnodes : unitNodes x s p i ⊆ nodes) (hrows : ∀ j < 20, ts[i + j]? = some (rowTensor n steps))
    (hz : GateSeats ts x s p.z a n steps) (hr : GateSeats ts x s p.r a n steps)
    (hh : GateSeats ts x s p.h a n steps) (hs : step < steps) (hn : 0 < n)
    (hu : ts[s.index]? = some (.ofKind .recurrent (rowShape n) steps)) :
    Advances (p.z.weights m c) (p.r.weights m c) (p.h.weights m c) (told a.rowElements) (told n)
        (told (n * batch)) (n * batch) (m.inSlot c x step) (m.inSlot c s step)
        (m.inSlot c ⟨i + 19⟩ step) ∧
      Computed (told (n * batch)) (n * batch) (read (m.inSlot c ⟨i + 19⟩ step)) (m.inSlot c s (step + 1)) := by
  have hrow : ∀ {k j : Nat}, k + j < 20 → ts[i + k + j]? = some (rowTensor n steps) :=
    fun hlt => by
      rw [Nat.add_assoc]
      exact hrows _ hlt
  have hseat : ∀ j < 20, Seat ts ⟨i + j⟩ true (rowShape n) steps :=
    fun j hj => ⟨_, hrows j hj, rfl, rfl, Nat.max_eq_left (by omega), rfl⟩
  have hfound : ∀ {y : TensorId}, Seat ts y true (rowShape n) steps →
      m.Found y ((rowShape n).withRows batch) step step :=
    fun hy => h.rowed.found h.compiled h.pos hy hs
  have hupdate := h.gate (p := p.z) (f := .sigmoid)
    (fun _ hnode => hnodes (by simp [unitNodes, hnode])) (fun j hj => hrows j (by omega)) hz hs hn
  have hreset := h.gate (p := p.r) (f := .sigmoid) (i := i + 5)
    (fun _ hnode => hnodes (by simp [unitNodes, hnode])) (fun j hj => hrow (by omega)) hr hs hn
  have hseen := h.binary (o := .elementwiseProduct) (y := ⟨i + 9⟩) (hnodes (by simp [unitNodes]))
    (hrows 10 (by omega)) hs (by simp [InStep]) hz.state (hfound (hseat 9 (by omega)))
  have hcandidate := h.gate (p := p.h) (f := .tanh) (s := ⟨i + 10⟩) (i := i + 11)
    (fun _ hnode => hnodes (by simp [unitNodes, hnode])) (fun j hj => hrow (by omega))
    ⟨hh.input, hseat 10 (by omega), hh.u, hh.w, hh.b⟩ hs hn
  have hkept := h.unary (o := .subtractFromConst 1) (x := ⟨i + 4⟩) (hnodes (by simp [unitNodes]))
    (hrows 16 (by omega)) hs (by simp [InStep]) (hseat 4 (by omega))
  have hfresh := h.binary (o := .elementwiseProduct) (x := ⟨i + 16⟩) (y := ⟨i + 15⟩)
    (hnodes (by simp [unitNodes])) (hrows 17 (by omega)) hs (by simp [InStep])
    (hseat 16 (by omega)) (hfound (hseat 15 (by omega)))
  have hcarried := h.binary (o := .elementwiseProduct) (x := ⟨i + 4⟩) (hnodes (by simp [unitNodes]))
    (hrows 18 (by omega)) hs (by simp [InStep]) (hseat 4 (by omega)) (hfound hz.state)
  have hnext := h.binary (o := .add 0) (x := ⟨i + 17⟩) (y := ⟨i + 18⟩)
    (hnodes (by simp [unitNodes])) (hrows 19 (by omega)) hs (by simp [InStep])
    (hseat 17 (by omega)) (hfound (hseat 18 (by omega)))
  refine ⟨⟨_, _, _, _, hupdate, hreset, hseen, hcandidate, hnext.congr fun j hj => ?_⟩, ?_⟩
  · simp only [Operator.entry, hfresh.read hj, hkept.read hj, hcarried.read hj, mixedEntry,
      bind_assoc, pure_bind]
  · rw [← elements_rows]
    have hcopied : { op := .copy 1, inputs := [⟨i + 19⟩], output := s, timeOffset := 0 } ∈ nodes :=
      hnodes (by simp [unitNodes])
    exact h.rowed.feed_computed h.compiled h.pos h.obeyed hcopied hu (hseat 19 (by omega)) ⟨hs, hs⟩
      (.inl ⟨rfl, rfl⟩)

end Settled

/-! ### All steps -/

variable {b : Backend α} {config : NetworkConfig} {scope : String} {a c : Shape}
  {steps batch : Nat} {g : GatedChain} {net m k : Network α}

omit [Scalar α] in
theorem nameTensor_noBreak {n n' : Network α} {id : TensorId} {name : String}
    (h : Network.nameTensor id name n = .ok ⟨⟩ n') : '\n' ∉ name.toList := by
  simp only [Network.nameTensor, Call.throw_ite_ok_iff] at h
  simpa using fun hbreak => h.1 (by simp [hbreak])

omit [Scalar α] in
theorem chain_built [One α] (h : chain scope a c steps net = .ok g m) :
    a.elements ≠ 0 ∧ c.elements ≠ 0 ∧ '\n' ∉ scope.toList := by
  simp only [chain, create, createGate, Call.bind_ok_iff] at h
  obtain ⟨_, _, ha, _, _, hc, _, _, -, _, _, ⟨_, _, ⟨_, _, -, _, _, -, _, _, -, _, _, hname, -⟩, -⟩,
    -⟩ := h
  refine ⟨(create_ok_iff.mp ha).2.1, (create_ok_iff.mp hc).2.1, fun hbreak => ?_⟩
  have hname' : '\n' ∈ (scope ++ ".u_" ++ "z").toList := by simp [hbreak]
  exact nameTensor_noBreak hname hname'

theorem chain_drawn (ha : a.w = 1) (hc : c.w = 1) (hs : 0 < steps)
    (built : chain scope a c steps (Network.new b config) = .ok g net) :
    chainIds = g ∧ 0 < c.rowElements ∧ Rowed { b with validation := config.validate }
      (withRows (chainTensors a c steps) c.rowElements steps 20) chainNodes net := by
  obtain ⟨hapos, hcpos, hscope⟩ := chain_built built
  rw [Shape.elements_eq_rowElements_mul, ha, Nat.mul_one] at hapos
  rw [Shape.elements_eq_rowElements_mul, hc, Nat.mul_one] at hcpos
  obtain ⟨_, net', hrun, rfl, hrowed⟩ := chain_rowed b config hscope
    ⟨ha, Nat.pos_of_ne_zero hapos⟩ ⟨hc, Nat.pos_of_ne_zero hcpos⟩ hs
  obtain ⟨rfl, rfl⟩ := EStateM.Result.ok.inj (hrun.symm.trans built)
  exact ⟨rfl, Nat.pos_of_ne_zero hcpos, hrowed⟩

theorem chainNodes_nodup :
    ((chainNodes : List (Node α)).map fun node => (node.output, node.op.place)).Nodup := by
  simp [chainNodes, unitNodes, gateNodes, chainIds, Operator.place]

/-- From the values that the host reads before, the state has come to what it reads after. It has
started as the first value, and then each step has advanced it and answered it as the output. -/
def Recurs (g : GatedChain) (k n shown count steps : Nat) (before after : Network α) : Prop :=
  ∃ (x s next : Nat → Array α) (first : Array α) (z r h : GateWeights α),
    (∀ t < steps, before.readings g.input t = .ok (x t)) ∧ before.readings g.first 0 = .ok first ∧
    g.params.z.Reads before z ∧ g.params.r.Reads before r ∧ g.params.h.Reads before h ∧
    (∀ t ≤ steps, after.readings g.state t = .ok (s t)) ∧
    (∀ t < steps, after.readings g.next t = .ok (next t)) ∧
    Computed shown count (read first) (s 0) ∧
    ∀ t < steps, Advances z r h k n shown count (x t) (s t) (next t) ∧
      Advances z r h k n shown count (x t) (s t) (s (t + 1))

/-- One forward pass takes a gated unit through all its timesteps, as far as its kernels are told of
them. -/
theorem chain_recurs_told (idle : b.Idle) (ha : a.w = 1) (hc : c.w = 1) (hs : 0 < steps)
    (built : chain scope a c steps (Network.new b config) = .ok g net)
    (compiled : compile batch net = .ok ⟨⟩ m) (written : HostWritten m k) :
    ∃ k', forward k = .ok ⟨⟩ k' ∧
      Recurs g (told a.rowElements) (told c.rowElements) (told (c.rowElements * max batch 1))
        (c.rowElements * max batch 1) steps k k' := by
  obtain ⟨rfl, hcpos, hrowed⟩ := chain_drawn ha hc hs built
  have idle' : Backend.Idle { b with validation := config.validate } :=
    ⟨idle.dispatches, idle.sound⟩
  have hcompiled := compile_ok hrowed.drawn.sketch.1.outline idle' compiled
  have hbatch : 0 < max batch 1 := by omega
  obtain ⟨k', hforward, hk, hk', obeyed, hother⟩ :=
    hrowed.forward chainNodes_nodup hcompiled hbatch written
  have hsettled : Settled _ _ _ net m (max batch 1) k'.backend :=
    ⟨hrowed, hcompiled, hbatch, obeyed⟩
  have hreads : ∀ {j : Network α} {x : TensorId} {t : Tensor} {slot : Nat}, m.SameGraphAs j →
      (withRows (chainTensors a c steps) c.rowElements steps 20)[x.index]? = some t →
      slot < t.slotCount → (t.kind = .parameter → slot = 0) →
        j.readings x slot = .ok (m.inSlot j.backend x slot) := by
    intro j x t slot hj ht hslot hp
    rw [readings, hrowed.reads hcompiled hj ht hslot hp]
    rfl
  -- what the host has written is still there after the pass
  have hhost : ∀ {x : TensorId} {t : Tensor} {slot : Nat},
      (withRows (chainTensors a c steps) c.rowElements steps 20)[x.index]? = some t →
      slot < t.slotCount → (t.kind = .parameter → slot = 0) →
      x ∉ (chainNodes : List (Node α)).map (·.output) →
        k.readings x slot = .ok (m.inSlot k'.backend x slot) := by
    intro x t slot ht hslot hp hx
    rw [hreads hk ht hslot hp, inSlot, inSlot, hother x t slot ht hslot hx]
  have hweights : ∀ i, i = 3 ∨ i = 6 ∨ i = 9 → GateParams.Reads ⟨⟨i⟩, ⟨i + 1⟩, ⟨i + 2⟩⟩ k
      (GateParams.weights ⟨⟨i⟩, ⟨i + 1⟩, ⟨i + 2⟩⟩ m k'.backend) := by
    rintro i (rfl | rfl | rfl)
    all_goals
      refine ⟨hhost rfl Nat.zero_lt_one (fun _ => rfl) ?_,
        hhost rfl Nat.zero_lt_one (fun _ => rfl) ?_, hhost rfl Nat.zero_lt_one (fun _ => rfl) ?_⟩
      all_goals simp [chainNodes, unitNodes, gateNodes, chainIds]
  have hseats : ∀ {i : Nat}, i = 3 ∨ i = 6 ∨ i = 9 →
      GateSeats (withRows (chainTensors a c steps) c.rowElements steps 20) ⟨0⟩ ⟨2⟩
        ⟨⟨i⟩, ⟨i + 1⟩, ⟨i + 2⟩⟩ a c.rowElements steps :=
    fun hi => (chainTensors_seats a c hs hi).append _
  have hsteps : max steps 1 = steps := Nat.max_eq_left hs
  refine ⟨k', hforward, m.inSlot k'.backend ⟨0⟩, m.inSlot k'.backend ⟨2⟩, m.inSlot k'.backend ⟨31⟩,
    m.inSlot k'.backend ⟨1⟩ 0, _, _, _, fun t ht => hhost rfl ?_ (by rintro ⟨⟩) ?_,
    hhost rfl ?_ (by rintro ⟨⟩) ?_, hweights 3 (by simp), hweights 6 (by simp),
    hweights 9 (by simp), fun t ht => hreads hk' rfl ?_ (by rintro ⟨⟩),
    fun t ht => hreads hk' rfl ?_ (by rintro ⟨⟩), ?_, fun t ht => ?_⟩
  · exact ht.trans_eq hsteps.symm
  · simp [chainNodes, unitNodes, gateNodes, chainIds]
  · exact Nat.zero_lt_one
  · simp [chainNodes, unitNodes, gateNodes, chainIds]
  · exact Nat.lt_succ_of_le (ht.trans_eq hsteps.symm)
  · exact ht.trans_eq hsteps.symm
  · have hinit : { op := .copyInit, inputs := [⟨1⟩], output := ⟨2⟩, timeOffset := 0 } ∈
        (chainNodes : List (Node α)) := List.mem_cons_self
    rw [← elements_rows]
    exact hrowed.feed_computed hcompiled hbatch obeyed hinit rfl ⟨_, rfl, rfl, rfl, rfl, rfl⟩
      ⟨hs, Nat.zero_lt_one⟩ (.inr ⟨rfl, rfl, rfl⟩)
  · obtain ⟨hadvances, hcopied⟩ := hsettled.unit (p := chainIds.params) (i := 12)
      (List.subset_cons_self _ _) (fun j hj => getElem?_withRows (chainTensors a c steps) hj)
      (hseats (.inl rfl)) (hseats (.inr (.inl rfl))) (hseats (.inr (.inr rfl))) ht
      hcpos rfl
    exact ⟨hadvances, hadvances.copied hcopied⟩

/-- One forward pass takes a gated unit through all its timesteps. -/
theorem chain_recurs (idle : b.Idle) (ha : a.w = 1) (hc : c.w = 1) (hs : 0 < steps)
    (tellable : a.rowElements ≤ 2147483647 ∧ c.rowElements * max batch 1 ≤ 2147483647)
    (built : chain scope a c steps (Network.new b config) = .ok g net)
    (compiled : compile batch net = .ok ⟨⟩ m) (written : HostWritten m k) :
    ∃ k', forward k = .ok ⟨⟩ k' ∧
      Recurs g a.rowElements c.rowElements (c.rowElements * max batch 1)
        (c.rowElements * max batch 1) steps k k' := by
  have hunits : c.rowElements ≤ 2147483647 :=
    (Nat.le_mul_of_pos_right _ (by omega)).trans tellable.2
  have h := chain_recurs_told idle ha hc hs built compiled written
  rwa [told_eq tellable.1, told_eq hunits, told_eq tellable.2] at h

/-- A unit of one entry over two timesteps. -/
def pairedUnit : Network Binary32 :=
  Call.after (chain "gru" ⟨1, 1, 1, 1⟩ ⟨1, 1, 1, 1⟩ 2) (Network.new Backend.host {})

set_option maxRecDepth 100000 in
theorem pairedUnit_built : chain "gru" ⟨1, 1, 1, 1⟩ ⟨1, 1, 1, 1⟩ 2 (Network.new Backend.host {}) =
    .ok chainIds pairedUnit :=
  Call.ok_of_answer? (by decide +kernel)

theorem pairedUnit_compiles (batch : Nat) (storable : pairedUnit.Storable (max batch 1)) :
    ∃ m, compile batch pairedUnit = .ok ⟨⟩ m := by
  obtain ⟨-, -, hrowed⟩ := chain_drawn rfl rfl (by decide) pairedUnit_built
  have hexact : ∀ node ∈ pairedUnit.nodes,
      node.op.shapeOf (pairedUnit.shapeOf node.first) (pairedUnit.shapeOf node.last) =
        .ok (pairedUnit.shapeOf node.output) := by decide +kernel
  -- the draws do not depend on the batch
  have hdraws : (drawAll pairedUnit.initials pairedUnit.generator).isOk = true := by decide +kernel
  cases hdrawn : drawAll pairedUnit.initials pairedUnit.generator with
  | error e =>
    rw [hdrawn] at hdraws
    cases hdraws
  | ok p =>
    exact hrowed.drawn.sketch.1.compile_succeeds Backend.host_idle Backend.host_registered storable
      (fun he => hrowed.sized he (by omega) hexact) hdrawn

theorem pairedUnit_recurs : ∃ m k k', compile 1 pairedUnit = .ok ⟨⟩ m ∧ HostWritten m k ∧
    forward k = .ok ⟨⟩ k' ∧ Recurs chainIds 1 1 1 1 2 k k' := by
  obtain ⟨m, hcompiled⟩ := pairedUnit_compiles 1 (by decide +kernel)
  obtain ⟨k', hforward, hrecurs⟩ := chain_recurs (a := ⟨1, 1, 1, 1⟩) (c := ⟨1, 1, 1, 1⟩)
    Backend.host_idle rfl rfl (by decide) (by decide) pairedUnit_built hcompiled .start
  exact ⟨m, m, k', hcompiled, .start, hforward, hrecurs⟩

/-! ### More entries than a kernel can be told -/

/-- A state of more entries than a kernel can be told does not start as the first value. -/
theorem chain_overlong {b : Backend Binary32} {net m : Network Binary32} (idle : b.Idle)
    (ha : a.w = 1) (hc : c.w = 1) (hs : 0 < steps)
    (built : chain scope a c steps (Network.new b config) = .ok g net)
    (compiled : compile batch net = .ok ⟨⟩ m)
    (long : 2147483647 < c.rowElements * max batch 1) (inputs units : Nat) :
    ∃ k k', HostWritten m k ∧ forward k = .ok ⟨⟩ k' ∧
      ¬Recurs g inputs units (c.rowElements * max batch 1) (c.rowElements * max batch 1) steps
        k k' := by
  obtain ⟨rfl, -, hrowed⟩ := chain_drawn ha hc hs built
  have idle' : Backend.Idle { b with validation := config.validate } :=
    ⟨idle.dispatches, idle.sound⟩
  have hcompiled := compile_ok hrowed.drawn.sketch.1.outline idle' compiled
  have hbatch : 0 < max batch 1 := by omega
  have hstate : (withRows (chainTensors a c steps) c.rowElements steps 20)[2]? =
    some (.ofKind .recurrent (rowShape c.rowElements) steps) := rfl
  have hfirst : Seat (withRows (chainTensors a c steps) c.rowElements steps 20) ⟨1⟩ true c 1 :=
    ⟨_, rfl, rfl, rfl, rfl, rfl⟩
  have hcount : (c.withRows (max batch 1)).elements = c.rowElements * max batch 1 := by
    rw [Shape.elements_withRows hc, Shape.elements_eq_rowElements_mul, hc, Nat.mul_one]
  -- the first values are ones, and the state is blank before the pass
  have hsize : (Array.replicate (c.withRows (max batch 1)).elements (1 : Binary32)).size =
    (c.withRows (max batch 1)).elements := Array.size_replicate
  obtain ⟨k, written, hk, hones, hother⟩ :=
    hrowed.input_filled (x := ⟨1⟩) hcompiled hbatch rfl hsize
  obtain ⟨hplace, hblank⟩ := hrowed.blank hcompiled hbatch hstate (Nat.succ_pos steps)
  obtain ⟨k', hforward, hk', hkeeps⟩ := hrowed.forward_keeps chainNodes_nodup hcompiled hbatch
    written List.mem_cons_self hstate rfl (hs.trans_le (Nat.le_max_left ..)) hfirst
  have hread : k'.readings ⟨2⟩ 0 = .ok (m.values k'.backend ⟨2, .forward, 0⟩) := by
    rw [readings, hrowed.reads hcompiled hk' hstate (Nat.succ_pos _) fun _ => rfl]
  have hlast := hkeeps 2147483647 (Nat.min_le_right ..)
  rw [hother _ hplace (by rintro ⟨⟩), hblank, elements_rows, Array.getElem?_replicate,
    if_pos long] at hlast
  -- after it the last entry of the state is zero still
  refine ⟨k, k', written, hforward, ?_⟩
  rintro ⟨x, s, next, first, z, r, h, -, hfirst', -, -, -, hs, -, hcopied, -⟩
  obtain rfl := Except.ok.inj (hones.symm.trans hfirst')
  obtain ⟨v, hv, hlast'⟩ := hcopied.2 2147483647 long
  rw [← Except.ok.inj (hread.symm.trans (hs 0 (Nat.zero_le _))), hlast] at hlast'
  rw [read_ok_iff, Array.getElem?_replicate, hcount, if_pos long] at hv
  cases hv
  exact absurd hlast' (by decide)

theorem pairedUnit_overlong : ∃ m k k', compile 2147483648 pairedUnit = .ok ⟨⟩ m ∧
    HostWritten m k ∧ forward k = .ok ⟨⟩ k' ∧
    ¬Recurs chainIds 1 1 2147483648 2147483648 2 k k' := by
  obtain ⟨m, hcompiled⟩ := pairedUnit_compiles 2147483648 (by decide +kernel)
  obtain ⟨k, k', written, hforward, hrecurs⟩ := chain_overlong (a := ⟨1, 1, 1, 1⟩)
    (c := ⟨1, 1, 1, 1⟩) Backend.host_idle rfl rfl (by decide) pairedUnit_built hcompiled
    (by decide) 1 1
  exact ⟨m, k, k', hcompiled, written, hforward, hrecurs⟩

end GatedUnit

end Backprop
