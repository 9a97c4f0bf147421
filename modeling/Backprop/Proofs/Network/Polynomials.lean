import Mathlib
import Backprop.Proofs.Network.BackwardPass

/-! Values as polynomials in the entries of the parameters, which forward passes evaluate, and their
derivatives by these entries. -/

namespace Backprop.Network

open MvPolynomial

variable [Inexact] {b c : Backend ℚ} {m k k' : Network ℚ} {i : Nat} {x : TensorId}

def weights (n : Network ℚ) (q : TensorId × Nat) : ℚ :=
  match n.readings q.1 0 with
  | .ok value => entry value q.2
  | .error _ => 0

omit [Inexact] in
theorem weights_congr (h : k.readings x 0 = k'.readings x 0) (i : Nat) :
    k.weights (x, i) = k'.weights (x, i) := by
  rw [weights, weights, h]

/-- Numbers for the entries of parameters, as they stand on a backend. -/
def Weighs (m : Network ℚ) (w : TensorId × Nat → ℚ) (c : Backend ℚ) : Prop :=
  ∀ x : TensorId, IsParameter m.tensors x → ∀ i < (m.shapeOf x).elements,
    w (x, i) = m.entries c .forward x.index 0 i

theorem Lowered.weights_eq (h : Lowered m) (stage : m.stage = .compiled) (hk : m.SameGraphAs k)
    {t : Tensor} (ht : m.tensors[x.index]? = some t) (i : Nat) :
    k.weights (x, i) = m.entries k.backend .forward x.index 0 i := by
  have hhas : m.Has ⟨x.index, .forward, 0⟩ :=
    ⟨t, ht, t.lives_forward, Tensor.slotCount_pos (h.sequence _ t ht).1⟩
  rw [weights, h.readings stage hk hhas]
  rfl

theorem Lowered.weighs (h : Lowered m) (stage : m.stage = .compiled) (hk : m.SameGraphAs k) :
    m.Weighs k.weights k.backend := by
  rintro x ⟨t, ht, -⟩ i -
  exact h.weights_eq stage hk ht i

theorem Lowered.perform_parameter (h : Lowered m) (stage : m.stage = .compiled)
    (hk : m.SameGraphAs k) (hx : IsParameter m.tensors x) {data : Array ℚ}
    (hs : data.size = (m.shapeOf x).elements) :
    (∀ i, weights (HostWrite.perform (.tensor x 0 data) k) (x, i) = entry data i) ∧
      ∀ y ≠ x, ∀ step, Network.readings (HostWrite.perform (.tensor x 0 data) k) y step =
        k.readings y step := by
  obtain ⟨allocation, ha⟩ := h.arranged
  obtain ⟨t, ht, -⟩ := hx
  have hhas : m.Has ⟨x.index, .forward, 0⟩ :=
    ⟨t, ht, t.lives_forward, Tensor.slotCount_pos (h.sequence _ t ht).1⟩
  have hshape := Network.shapeOf_eq ht
  have hperform : HostWrite.perform (.tensor x 0 data) k =
      { k with backend := k.backend.put (m.handle ⟨x.index, .forward, 0⟩) data } :=
    Call.after_of_ok (ha.writeTensor_ok (hk.shares stage) ht
      (Tensor.slotCount_pos (h.sequence _ t ht).1) (fun _ => rfl) (hshape ▸ hs))
  obtain ⟨hlayout, hself, hother⟩ := h.values_put hk.layout hhas
    (hs.trans (h.size_place hk.layout hhas).symm)
  have hsame : m.SameGraphAs (HostWrite.perform (.tensor x 0 data) k) := by
    rw [hperform]
    exact ⟨by rw [hk.same], hlayout⟩
  refine ⟨fun i => ?_, fun y hy step => h.readings_congr stage hsame hk (fun step hhas' => ?_) step⟩
  · rw [h.weights_eq stage hsame ht, hperform]
    exact congrFun (congrArg entry hself) i
  · rw [hperform]
    exact hother _ hhas' fun heq => hy (TensorId.eq_of_index (congrArg Place.tensor heq))

omit [Inexact] in
theorem Has.slot_eq {p : Place} (hp : m.Has p) (hx : IsParameter m.tensors ⟨p.tensor⟩) :
    p.slot = 0 := by
  obtain ⟨t, ht, hk⟩ := hx
  obtain ⟨u, hu, -, hlt⟩ := hp
  obtain rfl : t = u := Option.some.inj (ht.symm.trans hu)
  rw [Tensor.slotCount, hk] at hlt
  exact Nat.lt_one_iff.mp hlt

/-- The values of all slots that no operator writes, with an unknown for each entry of a
parameter. -/
noncomputable def unknowns (m : Network ℚ) (c : Backend ℚ) (x s i : Nat) :
    MvPolynomial (TensorId × Nat) ℚ :=
  if IsParameter m.tensors ⟨x⟩ ∧ i < (m.shapeOf ⟨x⟩).elements then X (⟨x⟩, i)
  else C (m.entries c .forward x s i)

/-- The values of all slots as polynomials in the entries of the parameters. -/
noncomputable def polynomials (m : Network ℚ) (c : Backend ℚ) :
    Nat → Nat → Nat → MvPolynomial (TensorId × Nat) ℚ :=
  m.evaluate (m.unknowns c)

/-- Only parameters may hold something else here than there. -/
def SameData (m : Network ℚ) (b c : Backend ℚ) : Prop :=
  ∀ (x s : Nat), m.Has ⟨x, .forward, s⟩ → ¬IsParameter m.tensors ⟨x⟩ →
    (∀ (i : Nat) (node : Node ℚ), m.nodes[i]? = some node → node.output.index ≠ x) →
      m.entries b .forward x s = m.entries c .forward x s

/-- What a forward pass leaves is what the polynomials come to. -/
theorem Algebraic.aeval_polynomials (h : Algebraic m) {w : TensorId × Nat → ℚ}
    (hb : m.backend.SameLayout b) (hc : m.backend.SameLayout c) (hw : m.Weighs w c)
    (agrees : m.Agrees (m.entries c .forward)) (same : m.SameData b c) {x s : Nat}
    (hhas : m.Has ⟨x, .forward, s⟩) :
    (fun i => aeval w (m.polynomials b x s i)) = m.entries c .forward x s := by
  refine ((h.evaluate_agrees (m.unknowns b)).map (aeval w)).unique agrees h ?_ hhas
  intro x s hhas hheld
  funext i
  rw [evaluate_held hheld, unknowns]
  by_cases hp : IsParameter m.tensors ⟨x⟩
  · obtain rfl : s = 0 := hhas.slot_eq hp
    by_cases hi : i < (m.shapeOf ⟨x⟩).elements
    · rw [if_pos ⟨hp, hi⟩, aeval_X, hw ⟨x⟩ hp i hi]
    · rw [if_neg fun hpi => hi hpi.2, aeval_C]
      have hzero : ∀ {e : Backend ℚ}, m.backend.SameLayout e →
          m.entries e .forward x 0 i = 0 := fun he => by
        rw [entries, entry, Array.getD_eq_getD_getElem?, Array.getElem?_eq_none, Option.getD_none]
        rw [h.lowered.size_place he hhas]
        exact Nat.le_of_not_lt hi
      rw [hzero hb, hzero hc, map_zero]
  · rw [if_neg fun hpi => hp hpi.1, aeval_C, same x s hhas hp hheld]
    rfl

omit [Inexact] in
/-- A partial derivative is the derivative along its unknown. -/
theorem eval_pderiv_of_line {σ : Type} [DecidableEq σ] {w : σ → ℚ} {q : σ}
    {f : MvPolynomial σ ℚ} {F : Polynomial ℚ}
    (hF : ∀ t, eval (Function.update w q t) f = F.eval t) :
    eval w (pderiv q f) = F.derivative.eval (w q) := by
  let line : σ → Polynomial ℚ := fun r => if r = q then Polynomial.X else Polynomial.C (w r)
  have hline : ∀ t r, (line r).eval t = Function.update w q t r := by
    intro t r
    by_cases hr : r = q
    · simp [line, hr]
    · simp [line, hr]
  have heval : ∀ (p : MvPolynomial σ ℚ) t,
      (aeval line p).eval t = eval (Function.update w q t) p := by
    intro p t
    induction p using MvPolynomial.induction_on with
    | C a => simp
    | add p p' hp hp' => rw [map_add, map_add, Polynomial.eval_add, hp, hp']
    | mul_X p r hp => rw [map_mul, map_mul, Polynomial.eval_mul, hp, aeval_X, eval_X, hline]
  have hself : ∀ r, (line r).eval (w q) = w r := fun r => by rw [hline, Function.update_eq_self]
  have hsame : aeval line f = F := Polynomial.funext fun t => by rw [heval, hF]
  rw [← hsame]
  clear hF hsame
  induction f using MvPolynomial.induction_on with
  | C a => simp
  | add p p' hp hp' => simp only [map_add, Polynomial.eval_add, hp, hp']
  | mul_X p r hp =>
    have hX : eval w (pderiv q (X r)) = (line r).derivative.eval (w q) := by
      by_cases hr : r = q
      · subst hr
        simp [line]
      · simp [line, hr, pderiv_X_of_ne hr]
    have hp' : eval w p = (aeval line p).eval (w q) := by rw [heval, Function.update_eq_self]
    rw [pderiv_mul, map_add, map_mul, map_mul, map_mul, aeval_X, Polynomial.derivative_mul,
      Polynomial.eval_add, Polynomial.eval_mul, Polynomial.eval_mul, hp, hX, hp', eval_X, hself]

noncomputable def derivative (w : TensorId × Nat → ℚ) (q : TensorId × Nat) :
    MvPolynomial (TensorId × Nat) ℚ →ₗ[ℚ] ℚ :=
  (aeval w).toLinearMap ∘ₗ (pderiv q).toLinearMap

omit [Inexact] in
theorem derivative_apply (w : TensorId × Nat → ℚ) (q : TensorId × Nat)
    (p : MvPolynomial (TensorId × Nat) ℚ) : derivative w q p = aeval w (pderiv q p) := rfl

theorem Algebraic.varied (h : Algebraic m) {w : TensorId × Nat → ℚ} (q : TensorId × Nat)
    (hb : m.backend.SameLayout b) (hc : m.backend.SameLayout c) (hw : m.Weighs w c)
    (agrees : m.Agrees (m.entries c .forward)) (same : m.SameData b c)
    (labels : ∀ (i : Nat) (node : Node ℚ), m.nodes[i]? = some node → node.op = .leastSquares →
      ∃ t, m.tensors[node.last.index]? = some t ∧ t.kind = .input) :
    m.Varied c (aeval w) (derivative w q) (m.polynomials b) where
  leibniz p p' := by
    simp only [derivative_apply, pderiv_mul, map_add, map_mul]
  agrees := h.evaluate_agrees _
  values x s hhas := h.aeval_polynomials hb hc hw agrees same hhas
  labels i node hi hop s j := by
    obtain ⟨t, ht, hk⟩ := labels i node hi ((h.reducesBatch_iff hi).mp hop)
    have hheld := h.stepwise.held ht (by simp [hk])
    have hlabel : ¬IsParameter m.tensors ⟨node.last.index⟩ := by
      rintro ⟨u, hu, hk'⟩
      obtain rfl : t = u := Option.some.inj (ht.symm.trans hu)
      rw [hk] at hk'
      cases hk'
    rw [polynomials, evaluate_held hheld, unknowns, if_neg fun hp => hlabel hp.1,
      derivative_apply, pderiv_C, map_zero]

theorem variation_held (w : TensorId × Nat → ℚ) (hx : IsParameter m.tensors x)
    (hi : i < (m.shapeOf x).elements) {p : Place} (hp : m.Has p) (hside : p.side = .backward)
    (held : ∀ (j : Nat) (node : Node ℚ), m.nodes[j]? = some node → node.output.index ≠ p.tensor) :
    variation (derivative w (x, i)) (m.polynomials b) p =
      (Pi.single ⟨x.index, .backward, 0⟩ (Pi.single i 1) : Place → Nat → ℚ) p := by
  funext j
  rw [variation, polynomials, evaluate_held held, unknowns]
  by_cases hpx : p = ⟨x.index, .backward, 0⟩
  · subst hpx
    rw [Pi.single_eq_same]
    by_cases hji : j = i
    · subst hji
      rw [if_pos ⟨hx, hi⟩, derivative_apply, pderiv_X_self, map_one, Pi.single_eq_same]
    · rw [Pi.single_eq_of_ne hji]
      split
      · rw [derivative_apply, pderiv_X_of_ne fun heq => hji (Prod.mk.inj heq).2, map_zero]
      · rw [derivative_apply, pderiv_C, map_zero]
  · rw [Pi.single_eq_of_ne hpx, Pi.zero_apply]
    split
    · next hpj =>
      have hne : ((⟨p.tensor⟩, j) : TensorId × Nat) ≠ (x, i) := fun heq => by
        have hindex := congrArg TensorId.index (Prod.mk.inj heq).1
        refine hpx ?_
        rw [← hindex, ← hside, ← hp.slot_eq hpj.1]
      rw [derivative_apply, pderiv_X_of_ne hne, map_zero]
    · rw [derivative_apply, pderiv_C, map_zero]

end Backprop.Network
