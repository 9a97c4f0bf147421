import Mathlib
import Backprop.Proofs.Backend.Effects
import Backprop.Proofs.Kernel.Products
import Backprop.Proofs.Network.Schedule
import Backprop.Proofs.Operator.ConvolutionGradients

/-! The backward pass of a matrix product. Four dispatches, played from the end, share one scratch
buffer, which first holds the second operand transposed and then the first. -/

namespace Backprop

variable {α : Type}

namespace Backend

variable {b c s : Backend α} {r : Request α} {d : Dispatch α} {h k : BufferId} {data : Array α}

theorem kernels_put (b : Backend α) (h : BufferId) (data : Array α) :
    (b.put h data).kernels = b.kernels := by
  unfold put
  split <;> rfl

theorem Implements.executes [Scalar α] {i : Nat} (hi : b.Implements r d)
    (answers : r.Answers b [(i, data)]) (resolves : ∀ h, .buffer h ∈ r.args → b.Resolves h)
    (harg : r.args[i]? = some (.buffer h)) : Executes d b (b.put h data) := by
  obtain ⟨compiled, hcompiled, hname⟩ := hi.kernel
  obtain ⟨k, hk, hrun⟩ := answers
  rw [hname, Option.some.injEq] at hk
  subst hk
  have hput : [(i, data)].foldl (putBack d.args) b = b.put h data := by
    simp only [List.foldl_cons, List.foldl_nil, putBack, hi.args, harg]
  refine ⟨(b.put h data).device, execute_ok_iff.mpr ⟨compiled, [(i, data)], hcompiled, ?_, ?_, ?_⟩,
    put_same b h data⟩
  · rw [hi.args]
    exact resolves
  · rw [hi.args, hi.launch]
    exact hrun
  · rw [hput]

/-- A dispatch that fills scratch, and one that reads it and changes a buffer: all that the second
finds in the other buffers was there before the first. -/
theorem runs_through_scratch [Scalar α] {r₁ r₂ : Request α} {d₁ d₂ : Dispatch α} {tmp z : BufferId}
    {kept : List BufferId} {t : Array α} {P : Array α → Prop}
    (resolves : ∀ h, .buffer h ∈ r₁.args ++ r₂.args → s.Resolves h)
    (apart : ∀ h ∈ z :: kept, s.Apart tmp h) (apart' : ∀ h ∈ kept, s.Apart z h)
    (i₁ : s.Implements r₁ d₁) (i₂ : s.Implements r₂ d₂)
    (h₁ : r₁.args[1]? = some (.buffer tmp)) (h₂ : r₂.args[2]? = some (.buffer z))
    (fill : r₁.Answers s [(1, t)]) (ht : t.size = (s.contents tmp).size)
    (add : ∀ m : Backend α, m.contents tmp = t → (∀ h ∈ z :: kept, m.contents h = s.contents h) →
      ∃ data, r₂.Answers m [(2, data)] ∧ data.size = (s.contents z).size ∧ P data) :
    ∃ c, Runs [d₁, d₂] s c ∧ P (c.contents z) ∧ ∀ h ∈ kept, c.contents h = s.contents h := by
  have htmp := resolves tmp (List.mem_append_left _ (List.mem_of_getElem? h₁))
  have hz := resolves z (List.mem_append_right _ (List.mem_of_getElem? h₂))
  have hput : ∀ h ∈ z :: kept, (s.put tmp t).contents h = s.contents h := fun h hh =>
    contents_put_apart htmp (apart h hh) ht
  obtain ⟨data, answers, hsize, hP⟩ := add (s.put tmp t) (contents_put_self htmp ht) hput
  have hkept : ∀ {h}, s.Resolves h → (s.put tmp t).Resolves h := fun hr =>
    hr.congr (buffers_put ..) (sizes_put ..)
  have hsize' : data.size = ((s.put tmp t).contents z).size := by
    rw [hsize, hput z List.mem_cons_self]
  have step₁ := i₁.executes fill (fun h hh => resolves h (List.mem_append_left _ hh)) h₁
  have step₂ := (i₂.congr (kernels_put s tmp t)).executes answers
    (fun h hh => hkept (resolves h (List.mem_append_right _ hh))) h₂
  refine ⟨(s.put tmp t).put z data, ⟨_, step₁, _, step₂, rfl⟩, ?_, fun h hh => ?_⟩
  · rwa [contents_put_self (hkept hz) hsize']
  · rw [contents_put_apart (hkept hz) ((apart' h hh).congr (buffers_put ..)) hsize',
      hput h (List.mem_cons_of_mem _ hh)]

end Backend

namespace Operator

open Kernel Backend

variable {op : Operator α} {a b out : Shape} {w : Wires} {s : Backend α}

theorem productRows_bounds {m : Nat} (h : a.elements = op.contraction a * m) :
    op.productRows a * op.contraction a = a.elements ∧ op.productRows a ≤ m := by
  have hle : op.productRows a ≤ m := by
    rw [productRows, h]
    exact Nat.div_le_of_le_mul (Nat.mul_le_mul_right m (le_max_left ..))
  refine ⟨?_, hle⟩
  obtain hk | hk := Nat.eq_zero_or_pos (op.contraction a)
  · rw [h, hk, Nat.mul_zero, Nat.zero_mul]
  · rw [productRows, Nat.max_eq_left hk, Nat.div_mul_cancel ⟨m, h⟩]

theorem product_fits (hop : op = .matMul ∨ op = .matMulFlat)
    (shape : op.outputShape [a, b] = .ok out) :
    op.productRows a * op.contraction a = a.elements ∧ op.contraction a * b.x = b.elements ∧
      op.productRows a * b.x ≤ out.elements := by
  have hfit : ∃ m, a.elements = op.contraction a * m ∧ op.contraction a = b.y ∧ b.z * b.w = 1 ∧
      out.elements = b.x * m := by
    obtain rfl | rfl := hop
    · change (matMul : Operator α).shapeOf a b = .ok out at shape
      simp only [shapeOf] at shape
      split at shape
      · next hfit =>
        cases shape
        refine ⟨a.y * a.z * a.w, ?_, hfit.1.symm, hfit.2, ?_⟩
        · simp only [Shape.elements, contraction]
          ring
        · simp only [Shape.elements]
          ring
      · cases shape
    · change (matMulFlat : Operator α).shapeOf a b = .ok out at shape
      simp only [shapeOf] at shape
      split at shape
      · next hfit =>
        cases shape
        refine ⟨a.w, rfl, hfit.1.symm, hfit.2, ?_⟩
        simp only [Shape.elements, Nat.mul_one]
      · cases shape
  obtain ⟨m, ha, hb, hone, hout⟩ := hfit
  obtain ⟨hrows, hle⟩ := productRows_bounds ha
  refine ⟨hrows, ?_, ?_⟩
  · rw [hb, Shape.elements, Nat.mul_assoc, hone, Nat.mul_one, Nat.mul_comm]
  · rw [hout, Nat.mul_comm]
    exact Nat.mul_le_mul_left b.x hle

theorem backwardRequests_product {tile : Nat} (hop : op = .matMul ∨ op = .matMulFlat) :
    op.backwardRequests a b tile w =
      [request "MatrixMulAdd" [.buffer w.tmp, .buffer w.gradOut, .buffer w.gradB,
          .int (op.contraction a), .int b.x, .int (op.productRows a)] (.tiled b.x (op.contraction a)),
        request "Transpose" [.buffer w.a, .buffer w.tmp, .int (op.contraction a),
          .int (op.productRows a)] (.planes (op.contraction a) (op.productRows a) 1),
        request "MatrixMulAdd" [.buffer w.gradOut, .buffer w.tmp, .buffer w.gradA,
          .int (op.productRows a), .int (op.contraction a), .int b.x]
          (.tiled (op.contraction a) (op.productRows a)),
        request "Transpose" [.buffer w.b, .buffer w.tmp, .int b.x, .int (op.contraction a)]
          (.planes b.x (op.contraction a) 1)] := by
    obtain rfl | rfl := hop <;> rfl

/-- The buffers of a product are as large as its shapes ask for, and no two of them share a
word. -/
structure ProductBuffers (op : Operator α) (a b out : Shape) (w : Wires) (s : Backend α) : Prop where
  resolves : ∀ h ∈ [w.tmp, w.gradA, w.gradB, w.gradOut, w.a, w.b], s.Resolves h
  apart : [w.tmp, w.gradA, w.gradB, w.gradOut, w.a, w.b].Pairwise s.Apart
  first : (s.contents w.a).size = a.elements ∧ (s.contents w.gradA).size = a.elements
  second : (s.contents w.b).size = b.elements ∧ (s.contents w.gradB).size = b.elements
  output : (s.contents w.gradOut).size = out.elements
  scratch : ∀ n ∈ op.scratchElements [a, b], n ≤ (s.contents w.tmp).size

theorem ProductBuffers.congr {c : Backend α} (h : ProductBuffers op a b out w s)
    (hb : c.buffers = s.buffers) (hs : c.device.sizes = s.device.sizes) :
    ProductBuffers op a b out w c := by
  have hsize : ∀ k ∈ [w.tmp, w.gradA, w.gradB, w.gradOut, w.a, w.b],
      (c.contents k).size = (s.contents k).size := fun k hk =>
    size_contents_congr (h.resolves k hk) hb hs
  simp only [List.mem_cons, List.not_mem_nil, or_false, forall_eq_or_imp, forall_eq] at hsize
  obtain ⟨htmp, hgradA, hgradB, hgradOut, ha, hb'⟩ := hsize
  refine ⟨fun k hk => (h.resolves k hk).congr hb hs, h.apart.imp fun h => h.congr hb, ?_, ?_, ?_, ?_⟩
  · rw [ha, hgradA]
    exact h.first
  · rw [hb', hgradB]
    exact h.second
  · rw [hgradOut]
    exact h.output
  · rw [htmp]
    exact h.scratch

variable [Scalar α]

section

variable {x y z : BufferId} {m n k rows cols : Nat}

theorem transpose_request (hx : rows * cols ≤ (s.contents x).size)
    (hz : rows * cols ≤ (s.contents z).size) :
    ∃ data, (request "Transpose" [.buffer x, .buffer z, .int cols, .int rows]
        (.planes cols rows 1)).Answers s [(1, data)] ∧ data.size = (s.contents z).size ∧
      Transposed (told rows) (told cols) (s.contents x) data := by
  obtain ⟨data, hdata, h⟩ := transpose_answers (o := ⟨_, .planes cols rows 1⟩) rfl rfl hx hz
  exact ⟨data, ⟨.transpose, HostKernel.ofName?_name .transpose, hdata⟩, h⟩

theorem product_request (launch : Launch) (hx : m * k ≤ (s.contents x).size)
    (hy : k * n ≤ (s.contents y).size) (hz : m * n ≤ (s.contents z).size) :
    ∃ data, (request "MatrixMulAdd"
        [.buffer x, .buffer y, .buffer z, .int m, .int n, .int k] launch).Answers s [(2, data)] ∧
      Accumulates (told m) (told n) (dotProduct (s.contents x) (s.contents y) (told n) (told k))
        (s.contents z) data := by
  obtain ⟨data, hdata, h⟩ := matrixProductAdd_answers (o := ⟨_, launch⟩) rfl hx hy hz
  exact ⟨data, ⟨.matrixProductAdd, HostKernel.ofName?_name .matrixProductAdd, hdata⟩, h⟩

end

/-- What the backward pass makes of the gradients of a matrix of `rows` by `k` and one of `k` by
`cols`. -/
structure Gradients (rows k cols : Nat) (w : Wires) (s c : Backend α) : Prop where
  first : Accumulates rows k (rowProduct (s.contents w.gradOut) (s.contents w.b) cols)
    (s.contents w.gradA) (c.contents w.gradA)
  second : Accumulates k cols
    (columnProduct (s.contents w.a) (s.contents w.gradOut) rows k cols)
    (s.contents w.gradB) (c.contents w.gradB)

section

variable {rows k cols : Nat} {d₁ d₂ : Dispatch α} {launch : Launch}

omit [Scalar α] in
theorem ProductBuffers.resolves_of (bufs : ProductBuffers op a b out w s) {args : List (KernelArg α)}
    (hargs : ∀ h, .buffer h ∈ args → h ∈ [w.tmp, w.gradA, w.gradB, w.gradOut, w.a, w.b]) (h : BufferId)
    (hh : .buffer h ∈ args) : s.Resolves h :=
  bufs.resolves h (hargs h hh)

omit [Scalar α] in
theorem ProductBuffers.apart_of (bufs : ProductBuffers op a b out w s) :
    (∀ h ∈ [w.gradA, w.gradB, w.gradOut, w.a, w.b], s.Apart w.tmp h) ∧
      (∀ h ∈ [w.gradB, w.gradOut, w.a, w.b], s.Apart w.gradA h) ∧
      ∀ h ∈ [w.gradOut, w.a, w.b], s.Apart w.gradB h := by
  have h := bufs.apart
  iterate 3 rw [List.pairwise_cons] at h
  exact ⟨h.1, h.2.1, h.2.2.1⟩

theorem first_gradient (bufs : ProductBuffers op a b out w s) (ha : rows * k = a.elements)
    (hb : k * cols = b.elements) (hout : rows * cols ≤ out.elements)
    (hscratch : b.elements ≤ (s.contents w.tmp).size)
    (i₁ : s.Implements (request "Transpose" [.buffer w.b, .buffer w.tmp, .int cols, .int k]
      (.planes cols k 1)) d₁)
    (i₂ : s.Implements (request "MatrixMulAdd" [.buffer w.gradOut, .buffer w.tmp,
      .buffer w.gradA, .int rows, .int k, .int cols] launch) d₂) :
    ∃ c, Runs [d₁, d₂] s c ∧
      Accumulates (told rows) (told k)
        (rowProduct (s.contents w.gradOut) (s.contents w.b) (told cols))
        (s.contents w.gradA) (c.contents w.gradA) ∧
      ∀ h ∈ [w.gradB, w.gradOut, w.a, w.b], c.contents h = s.contents h := by
  obtain ⟨apart, apart', -⟩ := bufs.apart_of
  obtain ⟨t, fill, ht, htransposed⟩ : ∃ t, _ ∧ _ ∧ Transposed (told k) (told cols)
      (s.contents w.b) t :=
    transpose_request (by rw [bufs.second.1, hb]) (show _ ≤ (s.contents w.tmp).size by omega)
  refine runs_through_scratch (P := Accumulates (told rows) (told k) _ _)
    (bufs.resolves_of (by simp [request, KernelArg.int, KernelArg.signed])) apart apart' i₁ i₂ rfl
    rfl fill ht fun m hm hkept => ?_
  have hgradOut := hkept w.gradOut (by simp)
  have hgradA := hkept w.gradA (by simp)
  have hroom : cols * k ≤ (m.contents w.tmp).size := by
    rw [hm, Nat.mul_comm]
    omega
  obtain ⟨data, answers, hdata⟩ := product_request (s := m) (x := w.gradOut) (z := w.gradA) launch
    (by rwa [hgradOut, bufs.output]) hroom (by rw [hgradA, bufs.first.2, ha])
  rw [hgradOut, hgradA, hm] at hdata
  exact ⟨data, answers, hdata.size, hdata.congr fun i _ j hj => dotProduct_transposed htransposed hj⟩

theorem second_gradient (bufs : ProductBuffers op a b out w s) (ha : rows * k = a.elements)
    (hb : k * cols = b.elements) (hout : rows * cols ≤ out.elements)
    (hscratch : a.elements ≤ (s.contents w.tmp).size)
    (i₁ : s.Implements (request "Transpose" [.buffer w.a, .buffer w.tmp, .int k, .int rows]
      (.planes k rows 1)) d₁)
    (i₂ : s.Implements (request "MatrixMulAdd" [.buffer w.tmp, .buffer w.gradOut,
      .buffer w.gradB, .int k, .int cols, .int rows] launch) d₂) :
    ∃ c, Runs [d₁, d₂] s c ∧
      Accumulates (told k) (told cols)
        (columnProduct (s.contents w.a) (s.contents w.gradOut) (told rows) (told k) (told cols))
        (s.contents w.gradB) (c.contents w.gradB) ∧
      ∀ h ∈ [w.gradA, w.gradOut], c.contents h = s.contents h := by
  obtain ⟨apart, apartA, apartB⟩ := bufs.apart_of
  obtain ⟨t, fill, ht, htransposed⟩ : ∃ t, _ ∧ _ ∧ Transposed (told rows) (told k)
      (s.contents w.a) t :=
    transpose_request (by rw [bufs.first.1, ha]) (show _ ≤ (s.contents w.tmp).size by omega)
  have apart₁ : ∀ h ∈ [w.gradB, w.gradA, w.gradOut], s.Apart w.tmp h := fun h hh => by
    refine apart h ?_
    simp only [List.mem_cons, List.not_mem_nil, or_false] at hh ⊢
    tauto
  have apart₂ : ∀ h ∈ [w.gradA, w.gradOut], s.Apart w.gradB h := by
    simp only [List.mem_cons, List.not_mem_nil, or_false, forall_eq_or_imp, forall_eq]
    exact ⟨(apartA _ List.mem_cons_self).symm, apartB _ List.mem_cons_self⟩
  refine runs_through_scratch (P := Accumulates (told k) (told cols) _ _)
    (bufs.resolves_of (by simp [request, KernelArg.int, KernelArg.signed])) apart₁ apart₂ i₁ i₂ rfl
    rfl fill ht fun m hm hkept => ?_
  have hgradOut := hkept w.gradOut (by simp)
  have hgradB := hkept w.gradB (by simp)
  have hroom : k * rows ≤ (m.contents w.tmp).size := by
    rw [hm, Nat.mul_comm]
    omega
  obtain ⟨data, answers, hdata⟩ := product_request (s := m) (y := w.gradOut) (z := w.gradB) launch
    hroom (by rwa [hgradOut, bufs.output]) (by rw [hgradB, bufs.second.2, hb])
  rw [hgradOut, hgradB, hm] at hdata
  exact ⟨data, answers, hdata.size, hdata.congr fun i hi j _ => transposed_dotProduct htransposed hi⟩

end

theorem gradients_run {ds : List (Dispatch α)} {tile : Nat} (hop : op = .matMul ∨ op = .matMulFlat)
    (shape : op.outputShape [a, b] = .ok out) (bufs : ProductBuffers op a b out w s)
    (implements : List.Forall₂ s.Implements (op.backwardRequests a b tile w) ds) :
    ∃ c, Runs ds.reverse s c ∧
      Gradients (told (op.productRows a)) (told (op.contraction a)) (told b.x) w s c := by
  obtain ⟨ha, hb, hout⟩ := product_fits hop shape
  have hscratch : max a.elements b.elements ≤ (s.contents w.tmp).size := by
    refine bufs.scratch _ ?_
    obtain rfl | rfl := hop <;> exact List.mem_singleton_self _
  rw [backwardRequests_product hop] at implements
  obtain ⟨d₁, _, i₁, h₁, rfl⟩ := List.forall₂_cons_left_iff.mp implements
  obtain ⟨d₂, _, i₂, h₂, rfl⟩ := List.forall₂_cons_left_iff.mp h₁
  obtain ⟨d₃, _, i₃, h₃, rfl⟩ := List.forall₂_cons_left_iff.mp h₂
  obtain ⟨d₄, _, i₄, h₄, rfl⟩ := List.forall₂_cons_left_iff.mp h₃
  obtain rfl := List.forall₂_nil_left_iff.mp h₄
  obtain ⟨m, run₁, first, kept⟩ := first_gradient bufs ha hb hout (by omega) i₄ i₃
  have hkernels : m.kernels = s.kernels := by rw [run₁.same]
  have hbuffers : m.buffers = s.buffers := by rw [run₁.same]
  have bufs' := bufs.congr hbuffers run₁.sizes
  have htmp : (m.contents w.tmp).size = (s.contents w.tmp).size :=
    size_contents_congr (bufs.resolves _ List.mem_cons_self) hbuffers run₁.sizes
  obtain ⟨c, run₂, second, kept'⟩ := second_gradient bufs' ha hb hout (by omega)
    (i₂.congr hkernels) (i₁.congr hkernels)
  rw [kept w.a (by simp), kept w.gradOut (by simp), kept w.gradB (by simp)] at second
  refine ⟨c, Runs.append.mpr ⟨m, run₁, run₂⟩, ?_, second⟩
  rw [kept' w.gradA (by simp)]
  exact first

omit [Scalar α] in
theorem backward_accepted {tile : Nat} (hop : op = .matMul ∨ op = .matMulFlat)
    (registered : s.registry.contains "MatrixMulAdd" ∧ s.registry.contains "Transpose")
    (bufs : ProductBuffers op a b out w s) :
    ∀ r ∈ op.backwardRequests a b tile w, s.Accepts r ∧ r.increment = none := by
  have hbuffers : ∀ {args : List (KernelArg α)},
      (∀ h, .buffer h ∈ args → h ∈ [w.tmp, w.gradA, w.gradB, w.gradOut, w.a, w.b]) →
      ∀ h, .buffer h ∈ args → ∃ buffer, s.buffers[h.index]? = some buffer := fun hargs h hh =>
    (bufs.resolves_of hargs h hh).imp fun _ h => h.1
  have hproduct : ∀ {args : List (KernelArg α)} {width height : Nat},
      (∀ h, .buffer h ∈ args → h ∈ [w.tmp, w.gradA, w.gradB, w.gradOut, w.a, w.b]) →
      s.Accepts (request "MatrixMulAdd" args (.tiled width height)) := fun hargs =>
    ⟨⟨registered.1, .matrixProductAdd, rfl⟩, hbuffers hargs, Launch.tiled_isWhole _ _, nofun⟩
  have htranspose : ∀ {args : List (KernelArg α)} {width height depth : Nat},
      (∀ h, .buffer h ∈ args → h ∈ [w.tmp, w.gradA, w.gradB, w.gradOut, w.a, w.b]) →
      s.Accepts (request "Transpose" args (.planes width height depth)) := fun hargs =>
    ⟨⟨registered.2, .transpose, rfl⟩, hbuffers hargs, Launch.planes_isWhole _ _ _, nofun⟩
  rw [backwardRequests_product hop]
  simp only [List.mem_cons, List.not_mem_nil, or_false, forall_eq_or_imp, forall_eq]
  refine ⟨⟨hproduct ?_, rfl⟩, ⟨htranspose ?_, rfl⟩, ⟨hproduct ?_, rfl⟩, htranspose ?_, rfl⟩ <;>
    simp [KernelArg.int, KernelArg.signed]

/-- Running the backward requests of a product adds to both gradients, as far as the kernels are
told of them, and changes nothing else but scratch. -/
theorem told_gradients {a b output tmp : Tensor} {scratch : List Tensor}
    (hop : op = .matMul ∨ op = .matMulFlat) (shape : op.outputShape [a.shape, b.shape] = .ok out)
    (wired : op.Wired [a, b] output (tmp :: scratch) w) (sound : s.Sound)
    (registered : s.registry.contains "MatrixMulAdd" ∧ s.registry.contains "Transpose")
    (empty : s.dispatches.get .backward = #[])
    (bufs : ProductBuffers op a.shape b.shape out w s) :
    ∃ e positions m c, op.emit [a, b] output (tmp :: scratch) = .ok e ∧
      e.backward.mapM (fun r => Backend.submit r .backward) s = .ok positions m ∧
      Backend.run .backward m = .ok ⟨⟩ c ∧
      Gradients (told (op.productRows a.shape)) (told (op.contraction a.shape))
        (told b.shape.x) w s c ∧
      s.Alters c fun h => h = w.gradA ∨ h = w.gradB ∨ h = w.tmp := by
  obtain ⟨e, hemit, hbackward⟩ : ∃ e, op.emit [a, b] output (tmp :: scratch) = .ok e ∧
      e.backward = op.backwardRequests a.shape b.shape output.cursor w := by
    have harity : [a, b].length = op.arity := by obtain rfl | rfl := hop <;> rfl
    have hemits : op.Emits a.shape b.shape (tmp :: scratch) := by
      obtain rfl | rfl := hop <;> exact List.cons_ne_nil _ _
    refine ⟨_, emit_of_emits wired harity hemits, ?_⟩
    obtain rfl | rfl := hop <;> rfl
  have haccepted : ∀ r ∈ op.backwardRequests a.shape b.shape output.cursor w,
      s.Accepts r ∧ r.increment = none := backward_accepted hop registered bufs
  obtain ⟨positions, m, hsubmit, hrecorded⟩ := submit_each .backward sound fun r hr =>
    (haccepted r hr).1
  obtain ⟨ks, hm⟩ := hrecorded.same
  obtain ⟨ds, hds, himplements⟩ := hrecorded.lists .backward
  rw [empty] at hds
  change (m.dispatches.get .backward).toList = ds at hds
  rw [if_pos rfl] at himplements
  have hbuffers : m.buffers = s.buffers := by rw [hm]; rfl
  have hdevice : m.device = s.device := by rw [hm]; rfl
  have hcontents : m.contents = s.contents := by
    funext h
    rw [contents, contents, window?_congr hbuffers, hdevice]
  obtain ⟨c, hruns, hgradients⟩ := gradients_run hop shape
    (bufs.congr hbuffers (by rw [hdevice])) himplements
  have himplemented : ∀ d ∈ ds, ∃ r ∈ op.backwardRequests a.shape b.shape output.cursor w,
      m.Implements r d := by
    intro d hd
    obtain ⟨i, hi⟩ := List.getElem?_of_mem hd
    obtain ⟨r, hr, h⟩ := forall₂_getElem? himplements.flip hi
    exact ⟨r, List.mem_of_getElem? hr, h⟩
  have hplain : ∀ d ∈ m.dispatches.get .backward, d.increment = none := by
    intro d hd
    obtain ⟨r, hr, himplements⟩ := himplemented d (hds ▸ Array.mem_toList_iff.mpr hd)
    rw [himplements.increment, (haccepted r hr).2]
  refine ⟨e, positions, m, c, hemit, hbackward ▸ hsubmit, ?_, ?_, ?_⟩
  · refine run_of_runs hplain ?_
    rw [hds]
    exact hruns
  · obtain ⟨first, second⟩ := hgradients
    rw [hcontents] at first second
    exact ⟨first, second⟩
  · obtain ⟨halterBuffers, hsizes, hwords⟩ := hruns.alters fun d hd h hw => by
      obtain ⟨r, hr, himplements⟩ := himplemented d (List.mem_reverse.mp hd)
      exact (backwardRequests_footprint op _ _ _ w r hr).1 h (himplements.writes hw)
    refine ⟨halterBuffers.trans hbuffers, hsizes.trans (by rw [hdevice]), fun a i hi => ?_⟩
    rw [hwords a i ?_, hdevice]
    intro h hh
    rw [Covers, window?_congr hbuffers]
    exact hi h hh

/-- Submitting the backward requests of a product and running the pass adds the products with the
other operand to both gradients, and changes nothing else but scratch. -/
theorem product_gradients {a b output tmp : Tensor} {scratch : List Tensor}
    (hop : op = .matMul ∨ op = .matMulFlat) (shape : op.outputShape [a.shape, b.shape] = .ok out)
    (tellable : op.productRows a.shape ≤ 2147483647 ∧ op.contraction a.shape ≤ 2147483647 ∧
      b.shape.x ≤ 2147483647)
    (wired : op.Wired [a, b] output (tmp :: scratch) w) (sound : s.Sound)
    (registered : s.registry.contains "MatrixMulAdd" ∧ s.registry.contains "Transpose")
    (empty : s.dispatches.get .backward = #[])
    (bufs : ProductBuffers op a.shape b.shape out w s) :
    ∃ e positions m c, op.emit [a, b] output (tmp :: scratch) = .ok e ∧
      e.backward.mapM (fun r => Backend.submit r .backward) s = .ok positions m ∧
      Backend.run .backward m = .ok ⟨⟩ c ∧
      Gradients (op.productRows a.shape) (op.contraction a.shape) b.shape.x w s c ∧
      s.Alters c fun h => h = w.gradA ∨ h = w.gradB ∨ h = w.tmp := by
  have h := told_gradients hop shape wired sound registered empty bufs
  rwa [told_eq tellable.1, told_eq tellable.2.1, told_eq tellable.2.2] at h

end Operator

namespace Backend

def ofSizes (sizes : List Nat) : Backend Binary32 :=
  { Backend.host with
    device := { (Device.standard : Device Binary32) with
      memory := (sizes.map fun n => Array.replicate n 1).toArray }
    buffers := (sizes.mapIdx fun i n => ⟨i, 0, 4 * n, .readWrite, none⟩).toArray }

variable {sizes : List Nat} {h k : BufferId} {n : Nat}

theorem contents_ofSizes (hn : sizes[h.index]? = some n) :
    (ofSizes sizes).Resolves h ∧ (ofSizes sizes).contents h = Array.replicate n 1 := by
  have hbuffer : (ofSizes sizes).buffers[h.index]? =
      some ⟨h.index, 0, 4 * n, .readWrite, none⟩ := by
    simp [ofSizes, hn]
  have hmemory : (ofSizes sizes).device.memory[h.index]? = some (Array.replicate n 1) := by
    simp [ofSizes, hn]
  refine ⟨⟨_, hbuffer, rfl, Nat.mul_mod_right 4 n, _, hmemory, by simp⟩, ?_⟩
  simp only [contents, window?, hbuffer, Option.map_some, Device.words, hmemory]
  simp

theorem apart_ofSizes (hne : h ≠ k) : (ofSizes sizes).Apart h k := by
  intro w v hw hv
  simp only [window?, ofSizes, List.getElem?_toArray, List.getElem?_mapIdx, Option.map_map,
    Option.map_eq_some_iff] at hw hv
  obtain ⟨_, -, rfl⟩ := hw
  obtain ⟨_, -, rfl⟩ := hv
  refine .inl fun he => hne ?_
  cases h
  cases k
  exact congrArg BufferId.mk he

end Backend

namespace Operator

open Backend Kernel

theorem productBuffers_ofSizes (a b out : Shape) :
    ProductBuffers (matMul : Operator Binary32) a b out ⟨⟨0⟩, ⟨1⟩, ⟨2⟩, ⟨3⟩, ⟨4⟩, ⟨5⟩, ⟨6⟩⟩
      (ofSizes [a.elements, a.elements, b.elements, b.elements, out.elements, out.elements,
        max a.elements b.elements]) where
  resolves := by
    simp only [List.mem_cons, List.not_mem_nil, or_false, forall_eq_or_imp, forall_eq]
    exact ⟨(contents_ofSizes rfl).1, (contents_ofSizes rfl).1, (contents_ofSizes rfl).1,
      (contents_ofSizes rfl).1, (contents_ofSizes rfl).1, (contents_ofSizes rfl).1⟩
  apart := by
    have hne : ([⟨6⟩, ⟨1⟩, ⟨3⟩, ⟨5⟩, ⟨0⟩, ⟨2⟩] : List BufferId).Nodup := by decide
    exact hne.imp fun h => apart_ofSizes h
  first := by
    rw [(contents_ofSizes rfl).2, (contents_ofSizes rfl).2]
    exact ⟨Array.size_replicate, Array.size_replicate⟩
  second := by
    rw [(contents_ofSizes rfl).2, (contents_ofSizes rfl).2]
    exact ⟨Array.size_replicate, Array.size_replicate⟩
  output := by
    rw [(contents_ofSizes rfl).2]
    exact Array.size_replicate
  scratch := by
    rw [(contents_ofSizes rfl).2, Array.size_replicate]
    exact fun n hn => (List.mem_singleton.mp hn).le

theorem paired_product_gradients :
    let w : Wires := ⟨⟨0⟩, ⟨1⟩, ⟨2⟩, ⟨3⟩, ⟨4⟩, ⟨5⟩, ⟨6⟩⟩
    let s := ofSizes [6, 6, 6, 6, 4, 4, 6]
    ∃ e positions m c, (matMul : Operator Binary32).emit [wiredTensor .input ⟨3, 2, 1, 1⟩ 0 1,
        wiredTensor .parameter ⟨2, 3, 1, 1⟩ 2 3] (wiredTensor .intermediate ⟨2, 2, 1, 1⟩ 4 5)
        [wiredTensor .scratch ⟨6, 1, 1, 1⟩ 6 6] = .ok e ∧
      e.backward.mapM (fun r => Backend.submit r .backward) s = .ok positions m ∧
      Backend.run .backward m = .ok ⟨⟩ c ∧ Gradients 2 3 2 w s c ∧
      s.Alters c fun h => h = w.gradA ∨ h = w.gradB ∨ h = w.tmp :=
  product_gradients (a := wiredTensor .input ⟨3, 2, 1, 1⟩ 0 1)
    (b := wiredTensor .parameter ⟨2, 3, 1, 1⟩ 2 3) (.inl rfl) rfl (by decide)
    ⟨by rintro t ⟨⟩; exact ⟨rfl, rfl⟩, by rintro t ⟨⟩; exact ⟨rfl, rfl⟩, ⟨rfl, rfl⟩,
      by rintro t ⟨⟩; rfl⟩ (fun i compiled hi => by simp [ofSizes, Backend.host] at hi)
    ⟨by decide, by decide⟩ rfl (productBuffers_ofSizes ⟨3, 2, 1, 1⟩ ⟨2, 3, 1, 1⟩ ⟨2, 2, 1, 1⟩)

/-- A column of ones that is longer than a kernel can be told: the gradient of the first row that
the kernel leaves out stays as it is. -/
theorem tall_gradient_stays {n : Nat} (hn : 2147483647 < n) {w : Wires} {s c : Backend Binary32}
    (hgradA : s.contents w.gradA = Array.replicate n 1)
    (hgradOut : s.contents w.gradOut = Array.replicate n 1)
    (hb : s.contents w.b = Array.replicate 1 1)
    (h : Gradients (told n) (told 1) (told 1) w s c) : ¬Gradients n 1 1 w s c := by
  intro hwhole
  obtain ⟨x, sum, hold, hsum, hnew⟩ := hwhole.first.entries 2147483647 hn 0 one_pos
  have hstays := h.first.rest 2147483647 (by
    rw [told_eq (show 1 ≤ 2147483647 by decide), Nat.mul_one]
    exact Nat.min_le_right ..)
  rw [Nat.mul_one, Nat.add_zero] at hold hnew
  rw [hnew, hold] at hstays
  rw [hgradA, Array.getElem?_replicate, if_pos hn] at hold
  have hread : read (Array.replicate n (1 : Binary32)) 2147483647 = .ok 1 := by
    rw [read_ok_iff, Array.getElem?_replicate, if_pos hn]
  have hterm : rowProduct (Array.replicate n (1 : Binary32)) (Array.replicate 1 1) 1 2147483647 0 =
      .ok (0 + 1 * 1) := by
    have hread' : read (Array.replicate 1 (1 : Binary32)) 0 = .ok 1 := rfl
    simp only [rowProduct, loop, loopFrom, Nat.mul_one, Nat.add_zero, hread, hread']
    rfl
  rw [hgradOut, hb, hterm] at hsum
  cases hold
  cases hsum
  exact absurd hstays (by decide)

/-- With 2147483648 rows, of which the kernels are told 2147483647, the gradient of the last row
stays as it is. -/
theorem tall_product_clamped :
    let w : Wires := ⟨⟨0⟩, ⟨1⟩, ⟨2⟩, ⟨3⟩, ⟨4⟩, ⟨5⟩, ⟨6⟩⟩
    let s := ofSizes [2147483648, 2147483648, 1, 1, 2147483648, 2147483648, 2147483648]
    ∃ e positions m c,
      (matMul : Operator Binary32).outputShape [⟨1, 2147483648, 1, 1⟩, ⟨1, 1, 1, 1⟩] =
        .ok ⟨1, 2147483648, 1, 1⟩ ∧
      (matMul : Operator Binary32).emit [wiredTensor .input ⟨1, 2147483648, 1, 1⟩ 0 1,
        wiredTensor .parameter ⟨1, 1, 1, 1⟩ 2 3]
        (wiredTensor .intermediate ⟨1, 2147483648, 1, 1⟩ 4 5)
        [wiredTensor .scratch ⟨2147483648, 1, 1, 1⟩ 6 6] = .ok e ∧
      e.backward.mapM (fun r => Backend.submit r .backward) s = .ok positions m ∧
      Backend.run .backward m = .ok ⟨⟩ c ∧ ¬Gradients 2147483648 1 1 w s c := by
  intro w s
  have hop : (matMul : Operator Binary32) = .matMul ∨ (matMul : Operator Binary32) = .matMulFlat :=
    .inl rfl
  have hwired : (matMul : Operator Binary32).Wired
      [wiredTensor .input ⟨1, 2147483648, 1, 1⟩ 0 1, wiredTensor .parameter ⟨1, 1, 1, 1⟩ 2 3]
      (wiredTensor .intermediate ⟨1, 2147483648, 1, 1⟩ 4 5)
      [wiredTensor .scratch ⟨2147483648, 1, 1, 1⟩ 6 6] w :=
    ⟨by rintro t ⟨⟩; exact ⟨rfl, rfl⟩, by rintro t ⟨⟩; exact ⟨rfl, rfl⟩, ⟨rfl, rfl⟩,
      by rintro t ⟨⟩; rfl⟩
  have sound : s.Sound := fun i compiled hi => by simp [s, ofSizes, Backend.host] at hi
  obtain ⟨e, positions, m, c, hemit, hsubmit, hrun, hgradients, -⟩ := told_gradients hop rfl hwired
    sound ⟨by decide, by decide⟩ rfl
    (productBuffers_ofSizes ⟨1, 2147483648, 1, 1⟩ ⟨1, 1, 1, 1⟩ ⟨1, 2147483648, 1, 1⟩)
  exact ⟨e, positions, m, c, rfl, hemit, hsubmit, hrun, tall_gradient_stays (by decide)
    (contents_ofSizes rfl).2 (contents_ofSizes rfl).2 (contents_ofSizes rfl).2 hgradients⟩

end Operator

end Backprop
