import Mathlib
import Backprop.Proofs.Network.Algebraic
import Backprop.Proofs.Network.ScratchSharing

/-! What the backward pass of an operator adds in exact arithmetic: to the gradients of its operands
what the gradient of its output comes to there, and nothing else. -/

namespace Backprop

theorem Backend.Runs.reverse_cons {α : Type} [Scalar α] {b₀ b c : Backend α} {r : Request α}
    {rs : List (Request α)} {ds : List (Dispatch α)}
    (hd : List.Forall₂ b₀.Implements (r :: rs) ds) (hr : Runs ds.reverse b c) :
    ∃ e es b', b₀.Implements r e ∧ List.Forall₂ b₀.Implements rs es ∧ Runs es.reverse b b' ∧
      Executes e b' c := by
  obtain ⟨e, es, hi, hes, rfl⟩ := List.forall₂_cons_left_iff.mp hd
  rw [List.reverse_cons] at hr
  obtain ⟨b', hr, c', he, rfl⟩ := Runs.append.mp hr
  exact ⟨e, es, b', hi, hes, hr, he⟩

theorem Backend.Runs.reverse_one {α : Type} [Scalar α] {b₀ b c : Backend α} {r : Request α}
    {ds : List (Dispatch α)} (hd : List.Forall₂ b₀.Implements [r] ds) (hr : Runs ds.reverse b c) :
    ∃ e, b₀.Implements r e ∧ Executes e b c := by
  obtain ⟨e, es, b', hi, hes, hr', he⟩ := hr.reverse_cons hd
  obtain rfl := List.forall₂_nil_left_iff.mp hes
  obtain rfl := hr'
  exact ⟨e, hi, he⟩

theorem Backend.Runs.reverse_two {α : Type} [Scalar α] {b₀ b c : Backend α} {r r' : Request α}
    {ds : List (Dispatch α)} (hd : List.Forall₂ b₀.Implements [r, r'] ds)
    (hr : Runs ds.reverse b c) : ∃ e e' b', b₀.Implements r e ∧ b₀.Implements r' e' ∧
      Executes e' b b' ∧ Executes e b' c := by
  obtain ⟨e, es, b', hi, hes, hr', he⟩ := hr.reverse_cons hd
  obtain ⟨e', hi', he'⟩ := hr'.reverse_one hes
  exact ⟨e, e', b', hi, hi', he', he⟩

namespace Network

open Kernel

variable [Inexact] {m : Network ℚ} {b c d : Backend ℚ} {p out z tmp : Place}
  {δ ε : Place → Nat → ℚ}

/-- The place is not one of scratch. -/
def Lasting (m : Network ℚ) (p : Place) : Prop :=
  ∃ t, m.tensors[p.tensor]? = some t ∧ t.kind ≠ .scratch

/-- Numbers are added to what places hold, scratch left aside. -/
structure Adds (m : Network ℚ) (δ : Place → Nat → ℚ) (b c : Backend ℚ) : Prop where
  layout : m.backend.SameLayout c
  entry : ∀ p, m.Has p → m.Lasting p → entry (m.values c p) = entry (m.values b p) + δ p

omit [Inexact] in
theorem Adds.trans (h : m.Adds δ b c) (h' : m.Adds ε c d) : m.Adds (δ + ε) b d := by
  refine ⟨h'.layout, fun p hp hl => ?_⟩
  rw [h'.entry p hp hl, h.entry p hp hl, add_assoc]
  rfl

theorem Adds.keeps (h : m.Adds δ b c) (hp : m.Has p) (hl : m.Lasting p) (hδ : δ p = 0) :
    Backprop.entry (m.values c p) = Backprop.entry (m.values b p) := by
  rw [h.entry p hp hl, hδ, add_zero]

/-! ### Requests -/

section

variable (h : Lowered m) (hb : m.backend.SameLayout b) {r : Request ℚ} {e : Dispatch ℚ}
  {k : HostKernel} {i : Nat} (he : Backend.Executes e b c) (hi : m.backend.Implements r e)
  (hk : HostKernel.ofName? r.kernel = some k) (hout : k.outputs = [i])

include h hb he hi hk hout

theorem Lowered.adds (harg : r.args[i]? = some (.buffer (m.handle p))) (hp : m.Has p)
    {g : Nat → ℚ} (exact : ∀ ws, k.run ⟨r.args.map b.operand, r.launch⟩ = .ok ws →
      ∃ data, ws = [(i, data)] ∧ ∀ j, entry data j = entry (m.values b p) j + g j) :
    m.Adds (Pi.single p g) b c := by
  obtain ⟨data, hrun, hlayout, hdata, hother⟩ := h.executes hb he hi hk hout harg hp
  refine ⟨hlayout, fun q hq _ => ?_⟩
  by_cases hqp : q = p
  · subst hqp
    obtain ⟨data', hws, hentry⟩ := exact _ hrun
    simp only [List.cons.injEq, Prod.mk.injEq, true_and, and_true] at hws
    rw [hdata, hws, Pi.single_eq_same]
    exact funext hentry
  · rw [hother q hq hqp, Pi.single_eq_of_ne hqp, add_zero]

theorem Lowered.fills (harg : r.args[i]? = some (.buffer (m.handle tmp))) (htmp : m.Has tmp)
    (scratch : ¬m.Lasting tmp) : m.Adds 0 b c ∧
      k.run ⟨r.args.map b.operand, r.launch⟩ = .ok [(i, m.values c tmp)] := by
  obtain ⟨data, hrun, hlayout, rfl, hother⟩ := h.executes hb he hi hk hout harg htmp
  refine ⟨⟨hlayout, fun q hq hl => ?_⟩, hrun⟩
  rw [hother q hq fun heq => scratch (heq ▸ hl)]
  exact (add_zero _).symm

end

/-! ### Through scratch -/

section

variable (h : Lowered m) (hb : m.backend.SameLayout b) {x y : Place} (hout : m.Has out)
  (hout' : m.Lasting out) (hz : m.Has z) (htmp : m.Has tmp)
  (scratch : ¬m.Lasting tmp) {e e' : Dispatch ℚ} {launch : Launch} {rows k cols : Nat}

include h hb hout hout' hz htmp scratch

theorem Lowered.adds_left (hrows : rows < 2 ^ 31) (hk : k < 2 ^ 31) (hcols : cols < 2 ^ 31)
    (hi : m.backend.Implements (Operator.request "Transpose" [.buffer (m.handle y),
      .buffer (m.handle tmp), .int cols, .int k] (.planes cols k 1)) e)
    (hi' : m.backend.Implements (Operator.request "MatrixMulAdd" [.buffer (m.handle out),
      .buffer (m.handle tmp), .buffer (m.handle z), .int rows, .int k, .int cols] launch) e')
    (hr : Backend.Runs [e, e'] b c) : m.Adds (Pi.single z (productLeft rows k cols
      (entry (m.values b y)) (entry (m.values b out)))) b c := by
  obtain ⟨b', he, c', he', rfl⟩ := hr
  obtain ⟨hfill, hrun⟩ := h.fills hb he hi (HostKernel.ofName?_name .transpose) rfl rfl htmp scratch
  obtain ⟨t, ht, htransposed⟩ := transpose_exact (o := ⟨_, _⟩) hk hcols rfl rfl hrun
  simp only [List.cons.injEq, Prod.mk.injEq, true_and, and_true] at ht
  refine (zero_add (Pi.single z _ : Place → Nat → ℚ)) ▸ hfill.trans ?_
  refine h.adds hfill.layout he' hi' (HostKernel.ofName?_name .matrixProductAdd) rfl rfl hz
    fun ws hws => ?_
  obtain ⟨data, rfl, hdata⟩ := matrixProductAdd_exact (o := ⟨_, _⟩) hrows hk hcols rfl hws
  refine ⟨data, rfl, fun j => (hdata j).trans ?_⟩
  have hgrad : entry (b'.contents (m.handle out)) = entry (m.values b out) :=
    hfill.keeps hout hout' rfl
  have hscratch : b'.contents (m.handle tmp) = t := ht
  rw [hgrad, hscratch, productImage_transposed htransposed]
  rfl

theorem Lowered.adds_right (hrows : rows < 2 ^ 31) (hk : k < 2 ^ 31) (hcols : cols < 2 ^ 31)
    (hi : m.backend.Implements (Operator.request "Transpose" [.buffer (m.handle x),
      .buffer (m.handle tmp), .int k, .int rows] (.planes k rows 1)) e)
    (hi' : m.backend.Implements (Operator.request "MatrixMulAdd" [.buffer (m.handle tmp),
      .buffer (m.handle out), .buffer (m.handle z), .int k, .int cols, .int rows] launch) e')
    (hr : Backend.Runs [e, e'] b c) : m.Adds (Pi.single z (productRight rows k cols
      (entry (m.values b x)) (entry (m.values b out)))) b c := by
  obtain ⟨b', he, c', he', rfl⟩ := hr
  obtain ⟨hfill, hrun⟩ := h.fills hb he hi (HostKernel.ofName?_name .transpose) rfl rfl htmp scratch
  obtain ⟨t, ht, htransposed⟩ := transpose_exact (o := ⟨_, _⟩) hrows hk rfl rfl hrun
  simp only [List.cons.injEq, Prod.mk.injEq, true_and, and_true] at ht
  refine (zero_add (Pi.single z _ : Place → Nat → ℚ)) ▸ hfill.trans ?_
  refine h.adds hfill.layout he' hi' (HostKernel.ofName?_name .matrixProductAdd) rfl rfl hz
    fun ws hws => ?_
  obtain ⟨data, rfl, hdata⟩ := matrixProductAdd_exact (o := ⟨_, _⟩) hk hcols hrows rfl hws
  refine ⟨data, rfl, fun j => (hdata j).trans ?_⟩
  have hgrad : entry (b'.contents (m.handle out)) = entry (m.values b out) :=
    hfill.keeps hout hout' rfl
  have hscratch : b'.contents (m.handle tmp) = t := ht
  rw [hgrad, hscratch, transposed_productImage htransposed]
  rfl

theorem Lowered.adds_input {f : Convolution} (fits : f.Fits) (told : f.Tellable)
    {launch' : Launch}
    (hi : m.backend.Implements (Operator.request "RotateAndReorder" [.buffer (m.handle y),
      .buffer (m.handle tmp), .int f.k.x, .int f.k.y, .int f.k.z, .int f.k.w] launch) e)
    (hi' : m.backend.Implements (Operator.request "ConvolutionAdd" [.buffer (m.handle out),
      .buffer (m.handle tmp), .buffer (m.handle z), .int f.outX, .int f.outY, .int f.k.x,
      .int f.k.y, .int f.k.w, .int f.k.z, .signed (f.k.x - 1 - f.pad), .signed (f.k.y - 1 - f.pad),
      .int f.stride, .int f.inX, .int f.inY, .int f.batch] launch') e')
    (hr : Backend.Runs [e, e'] b c) : m.Adds (Pi.single z (convolutionLeft f
      (entry (m.values b y)) (entry (m.values b out)))) b c := by
  obtain ⟨b', he, c', he', rfl⟩ := hr
  obtain ⟨hfill, hrun⟩ := h.fills hb he hi (HostKernel.ofName?_name .rotateAndReorder) rfl rfl
    htmp scratch
  obtain ⟨t, ht, hrotated⟩ := Convolution.rotate_exact (o := ⟨_, _⟩) told rfl hrun
  simp only [List.cons.injEq, Prod.mk.injEq, true_and, and_true] at ht
  refine (zero_add (Pi.single z _ : Place → Nat → ℚ)) ▸ hfill.trans ?_
  refine h.adds hfill.layout he' hi' (HostKernel.ofName?_name .convolutionAdd) rfl rfl hz
    fun ws hws => ?_
  have hscratch : b'.contents (m.handle tmp) = t := ht
  obtain ⟨data, rfl, hdata⟩ := Convolution.inputGrad_exact (o := ⟨_, _⟩) fits told rfl
    (hscratch ▸ hrotated) hws
  refine ⟨data, rfl, fun j => (hdata j).trans ?_⟩
  have hgrad : entry (b'.contents (m.handle out)) = entry (m.values b out) :=
    hfill.keeps hout hout' rfl
  rw [hgrad]
  rfl

end

/-! ### Operators -/

/-- Places for the operands of an operator, their gradients, the gradient of its output and scratch.
What is read is not among what is added to. -/
structure Seated (m : Network ℚ) (op : Operator ℚ) (x gradX y gradY grad tmp : Place) : Prop where
  lasting : ∀ p ∈ [x, gradX, y, gradY, grad], m.Has p ∧ m.Lasting p
  apart : ∀ p ∈ [x, y, grad], p ≠ gradX ∧ p ≠ gradY
  room : m.Has tmp
  scratch : op.NeedsScratch → ¬m.Lasting tmp

/-- The gradient of an output; that of a loss is one. -/
def received (op : Operator ℚ) (grad : Array ℚ) : Nat → ℚ :=
  if op.reducesBatch then Pi.single 0 1 else entry grad

theorem received_loss {op : Operator ℚ} {grad : Array ℚ} (hop : op.reducesBatch = true) :
    received op grad = Pi.single 0 1 := if_pos hop

/-- What is passed on to the last operand; a loss leaves its labels alone. -/
def passedLast (op : Operator ℚ) (a b : Shape) (x y g : Nat → ℚ) : Nat → ℚ :=
  if op.reducesBatch then 0 else op.right a b x y g

section

variable {gradX gradY : Place} {f g : Nat → ℚ}

theorem Adds.first (h : m.Adds (Pi.single gradX f) b c) :
    m.Adds (Pi.single gradX f + Pi.single gradY 0) b c := by
  rw [Pi.single_zero, add_zero]
  exact h

theorem Lowered.adds_grad (h : Lowered m) (hb : m.backend.SameLayout b) {k : HostKernel} {i : Nat}
    {args : List (KernelArg ℚ)} {launch : Launch} {e : Dispatch ℚ} (he : Backend.Executes e b c)
    (hi : m.backend.Implements (Operator.request k.name args launch) e) (hout : k.outputs = [i])
    (harg : args[i]? = some (.buffer (m.handle p))) (hp : m.Has p)
    (exact : ∀ ws, k.run ⟨args.map b.operand, launch⟩ = .ok ws →
      ∃ data, ws = [(i, data)] ∧ ∀ j, entry data j = entry (m.values b p) j + g j) :
    m.Adds (Pi.single p g) b c :=
  h.adds hb he hi (HostKernel.ofName?_name k) hout harg hp exact

end

section

variable (h : Lowered m) (hb : m.backend.SameLayout b) {op : Operator ℚ} {sa sb : Shape}
  {step : Nat} {x gradX y gradY grad : Place} {ds : List (Dispatch ℚ)}

include h hb

theorem Lowered.adds_copied {n : Nat} (hn : n < 2 ^ 31) {k : HostKernel} {i : Nat}
    {args : List (KernelArg ℚ)} {launch launch' : Launch} {g : Nat → ℚ}
    (hd : List.Forall₂ m.backend.Implements
      [Operator.request "CopyAdd" [.buffer (m.handle grad), .buffer (m.handle gradX), .int n]
          launch,
        Operator.request k.name args launch'] ds)
    (hr : Backend.Runs ds.reverse b c) (hgx : m.Has gradX) (hgy : m.Has gradY) (hg : m.Has grad)
    (hg' : m.Lasting grad) (apart : grad ≠ gradY) (hout : k.outputs = [i])
    (harg : args[i]? = some (.buffer (m.handle gradY)))
    (exact : ∀ ws, k.run ⟨args.map b.operand, launch'⟩ = .ok ws →
      ∃ data, ws = [(i, data)] ∧ ∀ j, entry data j = entry (m.values b gradY) j + g j) :
    m.Adds (Pi.single gradX (cut n (entry (m.values b grad))) + Pi.single gradY g) b c := by
  obtain ⟨e, e', b', hi, hi', he', he⟩ := hr.reverse_two hd
  have hlast := h.adds_grad hb he' hi' hout harg hgy exact
  have hfirst : m.Adds (Pi.single gradX (cut n (entry (m.values b' grad)))) b' c :=
    h.adds_grad (k := .copyAdd) hlast.layout he hi rfl rfl hgx fun _ =>
      copyAdd_exact (o := ⟨_, _⟩) rfl hn
  rw [hlast.keeps hg hg' (Pi.single_eq_of_ne apart _)] at hfirst
  rw [add_comm]
  exact hlast.trans hfirst

/-- The backward pass of an operator adds to the gradients of its operands. -/
theorem Lowered.backward_adds (seated : m.Seated op x gradX y gradY grad tmp) (hop : op.Algebraic)
    (told : op.Told sa sb)
    (hd : List.Forall₂ m.backend.Implements (op.backwardRequests sa sb step
      ⟨m.handle x, m.handle gradX, m.handle y, m.handle gradY, m.handle out, m.handle grad,
        m.handle tmp⟩) ds) (hr : Backend.Runs ds.reverse b c) :
    m.Adds (Pi.single gradX (op.left sa sb step (entry (m.values b x)) (entry (m.values b y))
        (received op (m.values b grad))) +
      Pi.single gradY (passedLast op sa sb (entry (m.values b x)) (entry (m.values b y))
        (received op (m.values b grad)))) b c := by
  obtain ⟨⟨hax, hay, haz, haw⟩, hbx⟩ := told.extents_lt
  obtain ⟨hrows, hk⟩ := told.product_lt
  have hlasting := seated.lasting
  have hapart := seated.apart
  simp only [List.mem_cons, List.not_mem_nil, or_false, forall_eq_or_imp, forall_eq]
    at hlasting hapart
  obtain ⟨⟨hx, hx'⟩, ⟨hgx, -⟩, ⟨hy, -⟩, ⟨hgy, -⟩, hg, hg'⟩ := hlasting
  obtain ⟨⟨hxgx, -⟩, -, hggx, hggy⟩ := hapart
  cases op with
  | copy timeResult =>
    obtain ⟨e, hi, he⟩ := hr.reverse_one hd
    exact Adds.first (h.adds_grad (k := .copyAdd) hb he hi rfl rfl hgx fun _ =>
      copyAdd_exact (o := ⟨_, _⟩) rfl told.first.2)
  | subtractFromConst constant =>
    obtain ⟨e, hi, he⟩ := hr.reverse_one hd
    exact Adds.first (h.adds_grad (k := .subtractFromConstGrad) hb he hi rfl rfl hgx fun _ =>
      subtractFromConstGrad_exact (o := ⟨_, _⟩) rfl told.first.2)
  | split tileX tileY =>
    obtain ⟨e, hi, he⟩ := hr.reverse_one hd
    exact Adds.first (h.adds_grad (k := .splitDataGrad) hb he hi rfl rfl hgx fun _ =>
      splitDataGrad_exact (o := ⟨_, _⟩) (Tiling.ofOperands_told rfl) rfl)
  | leastSquares =>
    obtain ⟨e, hi, he⟩ := hr.reverse_one hd
    refine Adds.first
      (h.adds_grad (k := .meanSquaredErrorGrad) hb he hi rfl rfl hgx fun _ hws => ?_)
    obtain ⟨data, rfl, hdata⟩ := meanSquaredErrorGrad_exact (o := ⟨_, _⟩) told.first.2 haw rfl hws
    refine ⟨data, rfl, fun j => (hdata j).trans ?_⟩
    have hone : received (.leastSquares : Operator ℚ) (m.values b grad) 0 = 1 := by
      rw [received_loss rfl, Pi.single_eq_same]
    simp only [Operator.left, hone, mul_one]
    rfl
  | add timeResult =>
    exact h.adds_copied hb (k := .copyAdd) told.first.2 hd hr hgx hgy hg hg' hggy rfl rfl fun _ =>
      copyAdd_exact (o := ⟨_, _⟩) rfl told.first.2
  | addBias =>
    exact h.adds_copied hb (k := .addToMatrixGrad) told.first.2 hd hr hgx hgy hg hg' hggy rfl rfl
      fun _ => addToMatrixGrad_exact (o := ⟨_, _⟩) told.rowElements_lt haw rfl
  | addBiasConv =>
    exact h.adds_copied hb (k := .addToImageGrad) told.first.2 hd hr hgx hgy hg hg' hggy rfl rfl
      fun _ => addToImageGrad_exact (o := ⟨_, _⟩) told.plane_lt haz haw rfl
  | elementwiseProduct =>
    obtain ⟨e, e', b', hi, hi', he', he⟩ := hr.reverse_two hd
    have hfirst := h.adds_grad (k := .elementwiseProductAdd) hb he' hi' rfl rfl hgx fun _ =>
      elementwiseProductAdd_exact (o := ⟨_, _⟩) rfl told.first.2
    have hlast : m.Adds (Pi.single gradY (cut sa.elements fun i =>
        entry (m.values b' x) i * entry (m.values b' grad) i)) b' c :=
      h.adds_grad (k := .elementwiseProductAdd) hfirst.layout he hi rfl rfl hgy fun _ =>
        elementwiseProductAdd_exact (o := ⟨_, _⟩) rfl told.first.2
    rw [hfirst.keeps hx hx' (Pi.single_eq_of_ne hxgx _),
      hfirst.keeps hg hg' (Pi.single_eq_of_ne hggx _)] at hlast
    exact hfirst.trans hlast
  | matMul | matMulFlat =>
    obtain ⟨e₁, es, b₃, hi₁, hes, hr, he₁⟩ := hr.reverse_cons hd
    obtain ⟨e₂, es', b₂, hi₂, hes', hr, he₂⟩ := hr.reverse_cons hes
    obtain ⟨e₃, e₄, b₁, hi₃, hi₄, he₄, he₃⟩ := hr.reverse_two hes'
    have hfirst := h.adds_left hb hg hg' hgx seated.room (seated.scratch trivial) hrows hk hbx hi₄
      hi₃ ⟨_, he₄, _, he₃, rfl⟩
    have hlast := h.adds_right hfirst.layout hg hg' hgy seated.room (seated.scratch trivial) hrows
      hk hbx hi₂ hi₁ ⟨_, he₂, _, he₁, rfl⟩
    rw [hfirst.keeps hx hx' (Pi.single_eq_of_ne hxgx _),
      hfirst.keeps hg hg' (Pi.single_eq_of_ne hggx _)] at hlast
    exact hfirst.trans hlast
  | conv2d pad stride =>
    obtain ⟨fits, tellable⟩ := told.filter pad stride rfl
    obtain ⟨e₁, es, b₂, hi₁, hes, hr, he₁⟩ := hr.reverse_cons hd
    obtain ⟨e₂, e₃, b₁, hi₂, hi₃, he₃, he₂⟩ := hr.reverse_two hes
    have hfirst := h.adds_input hb hg hg' hgx seated.room (seated.scratch trivial) fits tellable hi₃
      hi₂ ⟨_, he₃, _, he₂, rfl⟩
    have hlast : m.Adds (Pi.single gradY (convolutionRight (Operator.filtering pad stride sa sb)
        (entry (m.values b₂ x)) (entry (m.values b₂ grad)))) b₂ c :=
      h.adds_grad (k := .convolutionWeightGrad) hfirst.layout he₁ hi₁ rfl rfl hgy fun _ =>
        Convolution.weightGrad_exact (o := ⟨_, _⟩) fits tellable rfl
    rw [hfirst.keeps hx hx' (Pi.single_eq_of_ne hxgx _),
      hfirst.keeps hg hg' (Pi.single_eq_of_ne hggx _)] at hlast
    exact hfirst.trans hlast
  | _ => exact hop.elim

end

end Network

end Backprop
