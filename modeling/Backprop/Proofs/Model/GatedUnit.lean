import Mathlib
import Backprop.Model.GatedUnit
import Backprop.Proofs.Network.Seats

/-! A gated unit over timesteps. Its network is drawn call by call, and a forward pass leaves in
every timestep the state that follows from the one before. -/

namespace Backprop

variable {α : Type}

/-- A gated unit over timesteps: its input, what its state starts from, the state, the parameters,
and the new state that it answers. -/
structure GatedChain where
  input : TensorId
  first : TensorId
  state : TensorId
  params : GatedUnit
  next : TensorId
deriving DecidableEq

namespace GatedUnit

/-- Builds a gated unit over `steps` timesteps of rows of shape `a`, whose state starts from rows of
shape `c`. -/
def chain [One α] (scope : String) (a c : Shape) (steps : Nat) : Network.Call α GatedChain := do
  let input ← Network.createInput a steps
  let first ← Network.createInput c 1
  let state ← Network.createState ⟨c.rowElements, 1, 1, 1⟩ steps
  let params ← create scope a.rowElements c.rowElements
  discard <| Network.copyInit first state
  let next ← params.step input state
  return { input, first, state, params, next }

/-! ### The drawing -/

def rowShape (n : Nat) : Shape := ⟨n, 1, 1, 1⟩

def rowTensor (n steps : Nat) : Tensor := Tensor.ofKind .intermediate (rowShape n) steps

def gateTensors (k n : Nat) : List Tensor :=
  [Tensor.ofKind .parameter ⟨n, k, 1, 1⟩ 1, Tensor.ofKind .parameter ⟨n, n, 1, 1⟩ 1,
    Tensor.ofKind .parameter (rowShape n) 1]

def gateNodes (x s : TensorId) (p : GateParams) (f : Activation) (i : Nat) : List (Node α) :=
  [{ op := .matMulFlat, inputs := [x, p.u], output := ⟨i⟩, timeOffset := 0 },
    { op := .matMul, inputs := [s, p.w], output := ⟨i + 1⟩, timeOffset := 0 },
    { op := .add 0, inputs := [⟨i⟩, ⟨i + 1⟩], output := ⟨i + 2⟩, timeOffset := 0 },
    { op := .addBias, inputs := [⟨i + 2⟩, p.b], output := ⟨i + 3⟩, timeOffset := 0 },
    { op := .activation f, inputs := [⟨i + 3⟩], output := ⟨i + 4⟩, timeOffset := 0 }]

def unitNodes [One α] (x s : TensorId) (p : GatedUnit) (i : Nat) : List (Node α) :=
  gateNodes x s p.z .sigmoid i ++ gateNodes x s p.r .sigmoid (i + 5) ++
    [{ op := .elementwiseProduct, inputs := [s, ⟨i + 9⟩], output := ⟨i + 10⟩, timeOffset := 0 }] ++
    gateNodes x ⟨i + 10⟩ p.h .tanh (i + 11) ++
    [{ op := .subtractFromConst 1, inputs := [⟨i + 4⟩], output := ⟨i + 16⟩, timeOffset := 0 },
      { op := .elementwiseProduct, inputs := [⟨i + 16⟩, ⟨i + 15⟩], output := ⟨i + 17⟩,
        timeOffset := 0 },
      { op := .elementwiseProduct, inputs := [⟨i + 4⟩, s], output := ⟨i + 18⟩, timeOffset := 0 },
      { op := .add 0, inputs := [⟨i + 17⟩, ⟨i + 18⟩], output := ⟨i + 19⟩, timeOffset := 0 },
      { op := .copy 1, inputs := [⟨i + 19⟩], output := s, timeOffset := 0 }]

open Network

variable {b : Backend α} {ts : List Tensor} {nodes : List (Node α)} {net : Network α}
  {x s : TensorId} {a : Shape} {k n steps : Nat}

theorem elements_rowShape (n : Nat) : (rowShape n).elements = n := by
  simp [rowShape, Shape.elements]

theorem inputProduct_onRows (ha : a.w = 1) (hk : a.rowElements = k) (hpos : 0 < k) (hn : 0 < n) :
    (.matMulFlat : Operator α).OnRows a ⟨n, k, 1, 1⟩ (rowShape n) := by
  refine ⟨?_, ha, nofun, ⟨?_, ?_⟩, trivial⟩
  · simp [Operator.shapeOf, hk, ha, rowShape]
  · rwa [Shape.elements_eq_rowElements_mul, ha, Nat.mul_one, hk]
  · simp [Shape.elements, hn, hpos]

theorem stateProduct_onRows (hn : 0 < n) :
    (.matMul : Operator α).OnRows (rowShape n) ⟨n, n, 1, 1⟩ (rowShape n) := by
  refine ⟨?_, rfl, nofun, ⟨?_, ?_⟩, trivial⟩
  · simp [Operator.shapeOf, rowShape]
  · rwa [elements_rowShape]
  · simp [Shape.elements, hn]

def OfRows : Operator α → Bool
  | .add _ | .elementwiseProduct | .addBias | .activation _ | .subtractFromConst _ => true
  | _ => false

theorem OfRows.onRows {op : Operator α} (hop : OfRows op = true) (hn : 0 < n) :
    op.OnRows (rowShape n) (rowShape n) (rowShape n) := by
  have hpos : 0 < (rowShape n).elements := by rwa [elements_rowShape]
  have hequal : op.requireEqualElements (rowShape n) (rowShape n) = .ok ⟨⟩ := if_pos rfl
  refine ⟨?_, rfl, fun _ => rfl, ⟨hpos, hpos⟩, ?_⟩
  · cases op with
    | add _ | elementwiseProduct => simp only [Operator.shapeOf, hequal]; rfl
    | addBias => exact if_pos (Nat.mul_one (rowShape n).rowElements)
    | activation _ | subtractFromConst _ => rfl
    | _ => cases hop
  · cases op <;> trivial

/-- What a gate reads: rows of the shape `a`, a state of `n` entries, and its parameters. -/
structure GateSeats (ts : List Tensor) (x s : TensorId) (p : GateParams) (a : Shape)
    (n steps : Nat) : Prop where
  input : Seat ts x true a steps
  state : Seat ts s true (rowShape n) steps
  u : Seat ts p.u false ⟨n, a.rowElements, 1, 1⟩ 1
  w : Seat ts p.w false ⟨n, n, 1, 1⟩ 1
  b : Seat ts p.b false (rowShape n) 1

theorem GateSeats.append {p : GateParams} (h : GateSeats ts x s p a n steps) (us : List Tensor) :
    GateSeats (ts ++ us) x s p a n steps :=
  ⟨h.input.append us, h.state.append us, h.u.append us, h.w.append us, h.b.append us⟩

def withRows (ts : List Tensor) (n steps j : Nat) : List Tensor :=
  ts ++ List.replicate j (rowTensor n steps)

theorem withRows_succ (ts : List Tensor) (n steps j : Nat) :
    withRows ts n steps (j + 1) = withRows ts n steps j ++ [rowTensor n steps] := by
  rw [withRows, List.replicate_succ', ← List.append_assoc, withRows]

theorem length_withRows (ts : List Tensor) (n steps j : Nat) :
    (withRows ts n steps j).length = ts.length + j := by
  rw [withRows, List.length_append, List.length_replicate]

theorem getElem?_withRows (ts : List Tensor) {i j : Nat} (hi : i < j) :
    (withRows ts n steps j)[ts.length + i]? = some (rowTensor n steps) := by
  rw [withRows, List.getElem?_append_right (Nat.le_add_right ..), Nat.add_sub_cancel_left,
    List.getElem?_replicate, if_pos hi]

theorem seat_withRows (ts : List Tensor) {i j : Nat} (hs : 0 < steps) (hi : i < j) :
    Seat (withRows ts n steps j) ⟨ts.length + i⟩ true (rowShape n) steps :=
  ⟨rowTensor n steps, getElem?_withRows ts hi, rfl, rfl, Nat.max_eq_left hs, rfl⟩

section

variable {op : Operator α} {y : TensorId} {s₁ s₂ : Shape} {steps' j : Nat}

theorem addBinary_withRows (h : Rowed b (withRows ts n steps j) nodes net) (hs : 0 < steps)
    (hn : 0 < n) (hx : Seat (withRows ts n steps j) x true s₁ steps)
    (hy : Seat (withRows ts n steps j) y (!op.takesParameter) s₂ steps') (hle : steps' ≤ steps)
    (hfit : op.OnRows s₁ s₂ (rowShape n)) (hentry : op.entrywise = true) (harity : op.arity = 2)
    (hop : InStep op) :
    Call.Yields (addOperator op [x, y] 0) net fun id net' => id = ⟨ts.length + j⟩ ∧
      Rowed b (withRows ts n steps (j + 1))
        (nodes ++ [{ op, inputs := [x, y], output := ⟨ts.length + j⟩, timeOffset := 0 }]) net' := by
  rw [withRows_succ, ← length_withRows ts n steps j]
  refine h.addBinary hx hy hle hs hfit ?_ hentry harity hop
  rwa [elements_rowShape]

theorem addUnary_withRows (h : Rowed b (withRows ts n steps j) nodes net) (hs : 0 < steps)
    (hn : 0 < n) (hx : Seat (withRows ts n steps j) x true (rowShape n) steps)
    (hrow : OfRows op = true) (harity : op.arity = 1) (hop : InStep op) :
    Call.Yields (addOperator op [x] 0) net fun id net' => id = ⟨ts.length + j⟩ ∧
      Rowed b (withRows ts n steps (j + 1))
        (nodes ++ [{ op, inputs := [x], output := ⟨ts.length + j⟩, timeOffset := 0 }]) net' := by
  have hentry : op.entrywise = true := by cases op <;> first | rfl | cases hrow
  rw [withRows_succ, ← length_withRows ts n steps j]
  refine h.addUnary hx hs (OfRows.onRows hrow hn) ?_ hentry harity hop
  rwa [elements_rowShape]

end

variable {j : Nat}

theorem gate_rowed {p : GateParams} {f : Activation} (h : Rowed b (withRows ts n steps j) nodes net)
    (seats : GateSeats (withRows ts n steps j) x s p a n steps) (hs : 0 < steps) (ha : a.w = 1)
    (hk : 0 < a.rowElements) (hn : 0 < n) :
    Call.Yields (gate x s p f) net fun id net' => id = ⟨ts.length + (j + 4)⟩ ∧
      Rowed b (withRows ts n steps (j + 5)) (nodes ++ gateNodes x s p f (ts.length + j)) net' := by
  have hgrow : ∀ {i : Nat}, GateSeats (withRows ts n steps i) x s p a n steps →
      GateSeats (withRows ts n steps (i + 1)) x s p a n steps := fun hseats => by
    rw [withRows_succ]
    exact hseats.append _
  unfold gate
  refine (addBinary_withRows h hs hn seats.input seats.u hs (inputProduct_onRows ha rfl hk hn) rfl
    rfl (by simp [InStep])).bind ?_
  rintro _ _ ⟨rfl, h₁⟩
  refine (addBinary_withRows h₁ hs hn (hgrow seats).state (hgrow seats).w hs
    (stateProduct_onRows hn) rfl rfl (by simp [InStep])).bind ?_
  rintro _ _ ⟨rfl, h₂⟩
  refine (addBinary_withRows h₂ hs hn (seat_withRows ts hs (by omega))
    (seat_withRows ts hs (by omega)) le_rfl (OfRows.onRows rfl hn) rfl rfl
    (by simp [InStep])).bind ?_
  rintro _ _ ⟨rfl, h₃⟩
  refine (addBinary_withRows h₃ hs hn (seat_withRows ts hs (by omega))
    (hgrow (hgrow (hgrow seats))).b hs (OfRows.onRows rfl hn) rfl rfl (by simp [InStep])).bind ?_
  rintro _ _ ⟨rfl, h₄⟩
  have hlast : Call.Yields (addOperator (.activation f) [⟨ts.length + (j + 1 + 1 + 1)⟩] 0) _ _ :=
    addUnary_withRows h₄ hs hn (seat_withRows ts hs (by omega)) rfl rfl (by simp [InStep])
  obtain ⟨_, net', hadd, rfl, h₅⟩ := hlast
  refine ⟨_, net', hadd, rfl, ?_⟩
  simpa only [gateNodes, List.append_assoc, List.cons_append, List.nil_append, Nat.add_assoc]
    using h₅

theorem step_rowed [One α] {p : GatedUnit} {u : Tensor} (h : Rowed b ts nodes net)
    (hz : GateSeats ts x s p.z a n steps) (hr : GateSeats ts x s p.r a n steps)
    (hh : GateSeats ts x s p.h a n steps) (hs : 0 < steps) (ha : a.w = 1)
    (hk : 0 < a.rowElements) (hn : 0 < n) (hu : ts[s.index]? = some u)
    (hkind : u.kind = .recurrent) (hshape : u.shape = rowShape n) :
    Call.Yields (p.step x s) net fun id net' => id = ⟨ts.length + 19⟩ ∧
      Rowed b (withRows ts n steps 20) (nodes ++ unitNodes x s p ts.length) net' := by
  have hnone : withRows ts n steps 0 = ts := by
    rw [withRows, List.replicate_zero, List.append_nil]
  have hseat : ∀ {i j : Nat}, i < j →
      Seat (withRows ts n steps j) ⟨ts.length + i⟩ true (rowShape n) steps :=
    fun hi => seat_withRows ts hs hi
  have hstate : ∀ j, Seat (withRows ts n steps j) s true (rowShape n) steps :=
    fun j => hz.state.append _
  unfold step
  simp only [Call.discard_eq]
  refine (gate_rowed (hnone.symm ▸ h) (hz.append _) hs ha hk hn).bind ?_
  rintro _ _ ⟨rfl, h₁⟩
  refine (gate_rowed h₁ (hr.append _) hs ha hk hn).bind ?_
  rintro _ _ ⟨rfl, h₂⟩
  refine (addBinary_withRows h₂ hs hn (hstate _) (hseat (by omega)) le_rfl
    (OfRows.onRows rfl hn) rfl rfl (by simp [InStep])).bind ?_
  rintro _ _ ⟨rfl, h₃⟩
  have hgated := hh.append (List.replicate 11 (rowTensor n steps))
  refine (gate_rowed h₃ ⟨hgated.input, hseat (by omega), hgated.u, hgated.w, hgated.b⟩ hs ha hk
    hn).bind ?_
  rintro _ _ ⟨rfl, h₄⟩
  refine (addUnary_withRows h₄ hs hn (hseat (by omega)) rfl rfl (by simp [InStep])).bind ?_
  rintro _ _ ⟨rfl, h₅⟩
  refine (addBinary_withRows h₅ hs hn (hseat (by omega)) (hseat (by omega)) le_rfl
    (OfRows.onRows rfl hn) rfl rfl (by simp [InStep])).bind ?_
  rintro _ _ ⟨rfl, h₆⟩
  refine (addBinary_withRows h₆ hs hn (hseat (by omega)) (hstate _) le_rfl
    (OfRows.onRows rfl hn) rfl rfl (by simp [InStep])).bind ?_
  rintro _ _ ⟨rfl, h₇⟩
  refine (addBinary_withRows h₇ hs hn (hseat (by omega)) (hseat (by omega)) le_rfl
    (OfRows.onRows rfl hn) rfl rfl (by simp [InStep])).bind ?_
  rintro _ _ ⟨rfl, h₈⟩
  have hne : (⟨ts.length + 19⟩ : TensorId) ≠ s := by
    rintro rfl
    simp at hu
  obtain ⟨id, net', hrun, h₉⟩ := h₈.feed (.inl rfl) (hseat (Nat.lt_succ_self 19)) rfl
    (by rwa [elements_rowShape]) (getElem?_append_some hu _) hkind (by rw [hshape]; rfl) hne
    (by rw [hshape]) nofun
  refine ⟨_, net', Call.bind_ok_iff.mpr ⟨⟨⟩, net', Call.bind_ok_iff.mpr ⟨id, net', hrun, rfl⟩, rfl⟩,
    rfl, ?_⟩
  simpa [unitNodes] using h₉

/-! ### Parameters -/

theorem scoped_name {scope part gate : String} (hscope : '\n' ∉ scope.toList)
    (hpart : '\n' ∉ part.toList ∧ part ≠ "") (hgate : '\n' ∉ gate.toList) :
    scope ++ part ++ gate ≠ "" ∧ '\n' ∉ (scope ++ part ++ gate).toList := by
  refine ⟨fun hempty => hpart.2 ?_, ?_⟩
  · have hlist := congrArg String.toList hempty
    simp only [String.toList_append, String.toList_empty, List.append_eq_nil_iff] at hlist
    exact String.toList_eq_nil_iff.mp hlist.1.2
  · simp [hscope, hpart.1, hgate]

theorem createGate_drawn {scope gate : String} (h : Drawn b ts nodes net) (hk : 0 < k) (hn : 0 < n)
    (hscope : '\n' ∉ scope.toList) (hgate : '\n' ∉ gate.toList) :
    Call.Yields (createGate scope gate k n) net fun p net' =>
      p = ⟨⟨ts.length⟩, ⟨ts.length + 1⟩, ⟨ts.length + 2⟩⟩ ∧
        Drawn b (ts ++ gateTensors k n) nodes net' := by
  have hpos : (⟨n, k, 1, 1⟩ : Shape).elements ≠ 0 ∧ (⟨n, n, 1, 1⟩ : Shape).elements ≠ 0 ∧
      (rowShape n).elements ≠ 0 := by
    simp [Shape.elements, rowShape, hk.ne', hn.ne']
  have hget : ∀ {i : Nat} {t : Tensor}, (gateTensors k n)[i]? = some t →
      (ts ++ gateTensors k n)[ts.length + i]? = some t := by
    intro i t hi
    rw [List.getElem?_append_right (Nat.le_add_right ..), Nat.add_sub_cancel_left, hi]
  have hu := hget (i := 0) rfl
  have hw := hget (i := 1) rfl
  have hb := hget (i := 2) rfl
  unfold createGate
  refine (h.createParameter hpos.1).bind ?_
  rintro _ _ ⟨rfl, h₁⟩
  refine (h₁.createParameter hpos.2.1).bind ?_
  rintro w _ ⟨hw', h₂⟩
  refine (h₂.createParameter hpos.2.2).bind ?_
  rintro b _ ⟨hb', h₃⟩
  rw [List.append_assoc, List.append_assoc] at h₃
  obtain rfl : w = ⟨ts.length + 1⟩ := by simpa using hw'
  obtain rfl : b = ⟨ts.length + 2⟩ := by simpa using hb'
  refine (Drawn.nameTensor h₃ hu (scoped_name hscope ⟨by decide, by decide⟩ hgate)).bind
    fun _ _ h₄ => ?_
  refine (Drawn.nameTensor h₄ hw (scoped_name hscope ⟨by decide, by decide⟩ hgate)).bind
    fun _ _ h₅ => ?_
  refine (Drawn.nameTensor h₅ hb (scoped_name hscope ⟨by decide, by decide⟩ hgate)).bind
    fun _ _ h₆ => ?_
  refine (Drawn.initWeight h₆ hu rfl).bind fun _ _ h₇ => ?_
  refine (Drawn.initWeight h₇ hw rfl).bind fun _ _ h₈ => ?_
  exact (Drawn.initWeight h₈ hb rfl).bind fun _ _ h₉ => .pure ⟨rfl, h₉⟩

theorem create_drawn {scope : String} (h : Drawn b ts nodes net) (hk : 0 < k) (hn : 0 < n)
    (hscope : '\n' ∉ scope.toList) :
    Call.Yields (create scope k n) net fun p net' =>
      p = ⟨⟨⟨ts.length⟩, ⟨ts.length + 1⟩, ⟨ts.length + 2⟩⟩,
          ⟨⟨ts.length + 3⟩, ⟨ts.length + 4⟩, ⟨ts.length + 5⟩⟩,
          ⟨⟨ts.length + 6⟩, ⟨ts.length + 7⟩, ⟨ts.length + 8⟩⟩⟩ ∧
        Drawn b (ts ++ gateTensors k n ++ gateTensors k n ++ gateTensors k n) nodes net' := by
  have hlength : (gateTensors k n).length = 3 := rfl
  unfold create
  refine (createGate_drawn h hk hn hscope (by decide)).bind ?_
  rintro _ _ ⟨rfl, h₁⟩
  refine (createGate_drawn h₁ hk hn hscope (by decide)).bind ?_
  rintro _ _ ⟨rfl, h₂⟩
  refine (createGate_drawn h₂ hk hn hscope (by decide)).bind ?_
  rintro _ _ ⟨rfl, h₃⟩
  exact .pure ⟨by simp [hlength, Nat.add_assoc], h₃⟩

/-! ### The whole unit -/

def chainTensors (a c : Shape) (steps : Nat) : List Tensor :=
  [Tensor.ofKind .input a steps, Tensor.ofKind .input c 1,
    Tensor.ofKind .recurrent (rowShape c.rowElements) steps] ++
    gateTensors a.rowElements c.rowElements ++ gateTensors a.rowElements c.rowElements ++
    gateTensors a.rowElements c.rowElements

def chainIds : GatedChain where
  input := ⟨0⟩
  first := ⟨1⟩
  state := ⟨2⟩
  params := ⟨⟨⟨3⟩, ⟨4⟩, ⟨5⟩⟩, ⟨⟨6⟩, ⟨7⟩, ⟨8⟩⟩, ⟨⟨9⟩, ⟨10⟩, ⟨11⟩⟩⟩
  next := ⟨31⟩

def chainNodes [One α] : List (Node α) :=
  { op := .copyInit, inputs := [⟨1⟩], output := ⟨2⟩, timeOffset := 0 } ::
    unitNodes ⟨0⟩ ⟨2⟩ chainIds.params 12

theorem chainTensors_seats (a c : Shape) (hs : 0 < steps) {i : Nat} (hi : i = 3 ∨ i = 6 ∨ i = 9) :
    GateSeats (chainTensors a c steps) ⟨0⟩ ⟨2⟩ ⟨⟨i⟩, ⟨i + 1⟩, ⟨i + 2⟩⟩ a c.rowElements steps := by
  have hseat : ∀ {x : TensorId} {f : Bool} {s : Shape} {i : Nat} {t : Tensor},
      (chainTensors a c steps)[x.index]? = some t → t.kind.followsBatch = f → t.shape = s →
        t.sequence = i → t.timeOffset = 0 → Seat (chainTensors a c steps) x f s i :=
    fun ht hf hs hi ho => ⟨_, ht, hf, hs, hi, ho⟩
  have hsteps : max steps 1 = steps := Nat.max_eq_left hs
  obtain rfl | rfl | rfl := hi
  all_goals exact ⟨hseat rfl rfl rfl hsteps rfl, hseat rfl rfl rfl hsteps rfl,
    hseat rfl rfl rfl rfl rfl, hseat rfl rfl rfl rfl rfl, hseat rfl rfl rfl rfl rfl⟩

theorem chain_rowed [One α] {scope : String} {c : Shape} (b : Backend α) (config : NetworkConfig)
    (hscope : '\n' ∉ scope.toList) (ha : a.w = 1 ∧ 0 < a.rowElements)
    (hc : c.w = 1 ∧ 0 < c.rowElements) (hs : 0 < steps) :
    Call.Yields (chain scope a c steps) (Network.new b config) fun g net => g = chainIds ∧
      Rowed { b with validation := config.validate }
        (withRows (chainTensors a c steps) c.rowElements steps 20) chainNodes net := by
  have hpos : ∀ {s : Shape}, s.w = 1 ∧ 0 < s.rowElements → s.elements ≠ 0 := fun h => by
    rw [Shape.elements_eq_rowElements_mul, h.1, Nat.mul_one]
    exact h.2.ne'
  have hrow : (rowShape c.rowElements).elements ≠ 0 := by
    rw [elements_rowShape]
    exact hc.2.ne'
  unfold chain
  simp only [Call.discard_eq]
  refine ((Drawn.start b config).createInput (hpos ha)).bind ?_
  rintro _ _ ⟨rfl, h₁⟩
  refine (h₁.createInput (hpos hc)).bind ?_
  rintro _ _ ⟨rfl, h₂⟩
  refine (h₂.createState hrow).bind ?_
  rintro _ _ ⟨rfl, h₃⟩
  refine (create_drawn h₃ ha.2 hc.2 hscope).bind ?_
  rintro _ _ ⟨rfl, h₄⟩
  have h₅ : Rowed { b with validation := config.validate } (chainTensors a c steps) [] _ :=
    ⟨h₄, List.forall_mem_nil _⟩
  have hrows : c.rowElements = (rowShape c.rowElements).rowElements := by
    simp [rowShape, Shape.rowElements]
  have hinit : Call.Yields (copyInit ⟨1⟩ ⟨2⟩) _ _ :=
    h₅.feed (.inr rfl) ⟨_, rfl, rfl, rfl, rfl, rfl⟩ hc.1 (Nat.pos_of_ne_zero (hpos hc)) rfl rfl rfl
      (by decide) hrows fun _ => List.forall_mem_nil _
  obtain ⟨id, _, hrun, h₆⟩ := hinit
  obtain ⟨_, net', hlast, rfl, h₇⟩ := step_rowed (p := chainIds.params)
    (u := .ofKind .recurrent (rowShape c.rowElements) steps) h₆
    (chainTensors_seats a c hs (.inl rfl)) (chainTensors_seats a c hs (.inr (.inl rfl)))
    (chainTensors_seats a c hs (.inr (.inr rfl))) hs ha.1 ha.2 hc.2 rfl rfl rfl
  refine ⟨_, net', ?_, rfl, h₇⟩
  refine Call.bind_ok_iff.mpr ⟨⟨⟩, _, Call.bind_ok_iff.mpr ⟨id, _, hrun, rfl⟩, ?_⟩
  exact Call.bind_ok_iff.mpr ⟨_, net', hlast, rfl⟩

end GatedUnit

end Backprop
