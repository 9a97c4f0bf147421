import Mathlib
import Backprop.Proofs.Backend.Submission
import Backprop.Proofs.Kernel.Scratch
import Backprop.Proofs.Operator.Footprint

/-! What an operator leaves in scratch it reads again before anyone else does, and never more of it
than it has filled. -/

namespace Backprop

variable {α : Type} [Scalar α] {A : Nat → Prop} {b₀ : Backend α} {T : List (BufferId × Nat)}
  {r : Request α} {d : Dispatch α}

namespace Backend.Implements

omit [Scalar α] in
theorem run (h : b₀.Implements r d) {host : HostKernel} (hk : HostKernel.ofName? r.kernel = some host)
    {compiled : CompiledKernel} (hc : b₀.kernels[d.kernel.index]? = some compiled) :
    compiled.kernel = host := by
  obtain ⟨compiled', hc', hname⟩ := h.kernel
  rw [hc] at hc'
  cases hc'
  rw [hk] at hname
  cases hname
  rfl

theorem carries (h : b₀.Implements r d) (avoids : ∀ k, .buffer k ∈ r.args → b₀.Avoids A k) :
    b₀.Carries A T [] d :=
  carries_of_avoids fun k hk => avoids k (h.args ▸ hk)

theorem carries_fill (h : b₀.Implements r d) {host : HostKernel}
    (hk : HostKernel.ofName? r.kernel = some host) {i n : Nat} {k : BufferId}
    (hi : r.args[i]? = some (.buffer k)) (lies : b₀.LiesIn A k)
    (others : ∀ j l, j ≠ i → r.args[j]? = some (.buffer l) → b₀.Avoids A l)
    (fills : ∀ b : Backend α, Kernel.Fills host.run ⟨r.args.map b.operand, r.launch⟩ i n) :
    b₀.Carries A T [(k, n)] d := by
  refine carries_of_fills (h.args ▸ hi) lies (h.args ▸ others) fun compiled hc b => ?_
  rw [h.run hk hc, h.args, h.launch]
  exact fills b

theorem carries_read (h : b₀.Implements r d) {host : HostKernel}
    (hk : HostKernel.ofName? r.kernel = some host) {i n : Nat} {k : BufferId}
    (hi : r.args[i]? = some (.buffer k))
    (others : ∀ j l, j ≠ i → r.args[j]? = some (.buffer l) → b₀.Avoids A l)
    (reads : ∀ b : Backend α, Kernel.ReadsFirst host.run ⟨r.args.map b.operand, r.launch⟩ i n) :
    b₀.Carries A [(k, n)] [] d := by
  refine carries_of_reads (h.args ▸ hi) (h.args ▸ others) fun compiled hc b => ?_
  rw [h.run hk hc, h.args, h.launch]
  exact reads b

end Backend.Implements

def Wires.lasting (w : Wires) : List BufferId := [w.a, w.gradA, w.b, w.gradB, w.out, w.gradOut]

namespace Operator

open Backend

variable {w : Wires}

/-- The operator has scratch to work with. -/
def NeedsScratch : Operator α → Prop
  | matMul | matMulFlat | conv2d .. => True
  | _ => False

omit [Scalar α] in
theorem emits_scratch {op : Operator α} {a b : Shape} {scratch : List Tensor}
    (h : op.Emits a b scratch) (hop : op.NeedsScratch) : scratch ≠ [] := by
  cases op with
  | matMul => exact h
  | matMulFlat => exact h
  | conv2d pad stride => exact h.1
  | _ => exact hop.elim

omit [Scalar α] in
theorem backwardRequests_written {op : Operator α} {a b : Shape} {tile : Nat} {r : Request α}
    (hr : r ∈ op.backwardRequests a b tile w) :
    ∀ h ∈ r.written, h = w.gradA ∨ h = w.gradB ∨ op.NeedsScratch ∧ h = w.tmp := by
  by_cases hop : op.NeedsScratch
  · intro h hh
    obtain hh | hh | hh := (backwardRequests_footprint op a b tile w r hr).1 h hh
    · exact .inl hh
    · exact .inr (.inl hh)
    · exact .inr (.inr ⟨hop, hh⟩)
  · have hmem : (r.written, r.read) ∈ op.backwardFootprints w := by
      rw [← backwardRequests_footprints op a b tile w]
      exact List.mem_map_of_mem hr
    generalize r.written = written at *
    generalize r.read = read at *
    cases op with
    | matMul | matMulFlat | conv2d => exact absurd trivial hop
    | transpose | accuracy => cases hmem
    | _ =>
      simp only [backwardFootprints, List.mem_cons, List.not_mem_nil, Prod.mk.injEq,
        or_false] at hmem
      aesop

omit [Scalar α] in
theorem forwardRequest_lasting (op : Operator α) (a b out : Shape) (tile : Nat) {k : BufferId}
    (hk : .buffer k ∈ (op.forwardRequest a b out tile w).args) : k ∈ w.lasting := by
  simp only [forwardRequest, request, operands, List.mem_append, List.mem_map, reduceCtorEq,
    and_false, exists_false, or_false, KernelArg.buffer.injEq, exists_eq_right] at hk
  unfold Wires.lasting
  split at hk <;>
  · simp only [List.mem_cons, List.not_mem_nil, or_false] at hk ⊢
    tauto

omit [Scalar α] in
theorem backwardRequests_lasting {op : Operator α} (hop : ¬op.NeedsScratch) (a b : Shape)
    (tile : Nat) {r : Request α} (hr : r ∈ op.backwardRequests a b tile w) {k : BufferId}
    (hk : .buffer k ∈ r.args) : k ∈ w.lasting := by
  unfold Wires.lasting
  cases op with
  | matMul => exact absurd trivial hop
  | matMulFlat => exact absurd trivial hop
  | conv2d pad stride => exact absurd trivial hop
  | transpose | accuracy => cases hr
  | activation kind =>
    obtain rfl := List.mem_singleton.mp hr
    simp only [request, KernelArg.int, KernelArg.signed, List.mem_cons, List.not_mem_nil,
      KernelArg.buffer.injEq, reduceCtorEq, or_false] at hk ⊢
    split at hk <;> tauto
  | elementwiseProduct | add timeResult | addBias | addBiasConv =>
    simp only [backwardRequests, List.mem_cons, List.not_mem_nil, or_false] at hr
    obtain rfl | rfl := hr <;>
    · simp only [request, KernelArg.int, KernelArg.signed, List.mem_cons, List.not_mem_nil,
        KernelArg.buffer.injEq, reduceCtorEq, or_false] at hk ⊢
      tauto
  | _ =>
    obtain rfl := List.mem_singleton.mp hr
    simp only [request, KernelArg.int, KernelArg.signed, List.mem_cons, List.not_mem_nil,
      KernelArg.buffer.injEq, reduceCtorEq, or_false] at hk ⊢
    tauto

/-! ### Products -/

theorem transpose_carries {x tmp : BufferId} {cols rows width height : Nat}
    (h : b₀.Implements (request "Transpose" [.buffer x, .buffer tmp, .int cols, .int rows]
      (.planes width height 1)) d) (hx : b₀.Avoids A x) (htmp : b₀.LiesIn A tmp) :
    b₀.Carries A T [(tmp, told rows * told cols)] d := by
  refine h.carries_fill (HostKernel.ofName?_name .transpose) (i := 1) rfl htmp ?_ fun b => ?_
  · intro j l hj hl
    match j with
    | 0 =>
      cases hl
      exact hx
    | 1 => exact absurd rfl hj
    | 2 | 3 => cases hl
    | j + 4 => cases hl
  · have hfills := Kernel.transpose_fills (α := α)
      (o := ⟨[.words (b.contents x), .words (b.contents tmp), .scalar (.int cols),
        .scalar (.int rows)], .planes width height 1⟩)
      (Operands.extent_int rfl) (Operands.extent_int rfl)
    have hz : max (Launch.planes width height 1).global.z 1 = 1 := rfl
    rw [hz, Nat.mul_one] at hfills
    exact hfills

theorem product_reads_left {tmp x out : BufferId} {m n k : Nat} {launch : Launch}
    (h : b₀.Implements (request "MatrixMulAdd"
      [.buffer tmp, .buffer x, .buffer out, .int m, .int n, .int k] launch) d)
    (hx : b₀.Avoids A x) (hout : b₀.Avoids A out) :
    b₀.Carries A [(tmp, told m * told k)] [] d := by
  refine h.carries_read (HostKernel.ofName?_name .matrixProductAdd) (i := 0) rfl ?_ fun b =>
    Kernel.matrixProductWith_reads_left (Operands.extent_int rfl) (Operands.extent_int rfl)
  intro j l hj hl
  match j with
  | 0 => exact absurd rfl hj
  | 1 =>
    cases hl
    exact hx
  | 2 =>
    cases hl
    exact hout
  | 3 | 4 | 5 => cases hl
  | j + 6 => cases hl

theorem product_reads_right {x tmp out : BufferId} {m n k : Nat} {launch : Launch}
    (h : b₀.Implements (request "MatrixMulAdd"
      [.buffer x, .buffer tmp, .buffer out, .int m, .int n, .int k] launch) d)
    (hx : b₀.Avoids A x) (hout : b₀.Avoids A out) :
    b₀.Carries A [(tmp, told k * told n)] [] d := by
  refine h.carries_read (HostKernel.ofName?_name .matrixProductAdd) (i := 1) rfl ?_ fun b =>
    Kernel.matrixProductWith_reads_right (Operands.extent_int rfl) (Operands.extent_int rfl)
  intro j l hj hl
  match j with
  | 0 =>
    cases hl
    exact hx
  | 1 => exact absurd rfl hj
  | 2 =>
    cases hl
    exact hout
  | 3 | 4 | 5 => cases hl
  | j + 6 => cases hl

/-! ### Convolutions -/

theorem rotate_carries {x tmp : BufferId} {kx ky kz kw : Nat} {launch : Launch}
    (h : b₀.Implements (request "RotateAndReorder"
      [.buffer x, .buffer tmp, .int kx, .int ky, .int kz, .int kw] launch) d)
    (hx : b₀.Avoids A x) (htmp : b₀.LiesIn A tmp) :
    b₀.Carries A T [(tmp, told kx * told ky * told kz * told kw)] d := by
  refine h.carries_fill (HostKernel.ofName?_name .rotateAndReorder) (i := 1) rfl htmp ?_ fun b =>
    Kernel.rotateAndReorder_fills (Operands.extent_int rfl) (Operands.extent_int rfl)
      (Operands.extent_int rfl) (Operands.extent_int rfl)
  intro j l hj hl
  match j with
  | 0 =>
    cases hl
    exact hx
  | 1 => exact absurd rfl hj
  | 2 | 3 | 4 | 5 => cases hl
  | j + 6 => cases hl

theorem convolution_reads {x tmp out : BufferId} {inX inY kx ky kz kw : Nat} {padX padY : Int}
    {stride outX outY batch : Nat} {launch : Launch}
    (h : b₀.Implements (request "ConvolutionAdd" [.buffer x, .buffer tmp, .buffer out,
      .int inX, .int inY, .int kx, .int ky, .int kz, .int kw, .signed padX, .signed padY,
      .int stride, .int outX, .int outY, .int batch] launch) d)
    (hx : b₀.Avoids A x) (hout : b₀.Avoids A out) :
    b₀.Carries A [(tmp, told kx * told ky * told kz * told kw)] [] d := by
  refine h.carries_read (HostKernel.ofName?_name .convolutionAdd) (i := 1) rfl ?_ fun b =>
    Kernel.convolutionAdd_reads (Operands.extent_int rfl) (Operands.extent_int rfl)
      (Operands.extent_int rfl) (Operands.extent_int rfl)
  intro j l hj hl
  match j with
  | 0 =>
    cases hl
    exact hx
  | 1 => exact absurd rfl hj
  | 2 =>
    cases hl
    exact hout
  | 3 | 4 | 5 | 6 | 7 | 8 | 9 | 10 | 11 | 12 | 13 | 14 => cases hl
  | j + 15 => cases hl

/-! ### All operators -/

variable {ds : List (Dispatch α)}

theorem forward_carries {op : Operator α} {a b out : Shape} {tile : Nat}
    (lasting : ∀ k ∈ w.lasting, b₀.Avoids A k)
    (hd : b₀.Implements (op.forwardRequest a b out tile w) d) : b₀.Carries A T [] d :=
  hd.carries fun k hk => lasting k (op.forwardRequest_lasting a b out tile hk)

/-- Whatever else is in scratch, the backward pass of an operator does the same. -/
theorem backward_shielded {op : Operator α} {a b : Shape} {tile : Nat}
    (lasting : ∀ k ∈ w.lasting, b₀.Avoids A k) (tmp : op.NeedsScratch → b₀.LiesIn A w.tmp)
    (hds : List.Forall₂ b₀.Implements (op.backwardRequests a b tile w) ds) :
    b₀.Shielded A [] ds.reverse := by
  by_cases hop : op.NeedsScratch
  · have htmp := tmp hop
    simp only [Wires.lasting, List.forall_mem_cons, List.not_mem_nil, false_imp_iff,
      implies_true, and_true] at lasting
    obtain ⟨ha, hga, hb, hgb, -, hgo⟩ := lasting
    cases op with
    | matMul | matMulFlat =>
      obtain ⟨gradB, _, h₁, hds₁, rfl⟩ := List.forall₂_cons_left_iff.mp hds
      obtain ⟨transposeA, _, h₂, hds₂, rfl⟩ := List.forall₂_cons_left_iff.mp hds₁
      obtain ⟨gradA, _, h₃, hds₃, rfl⟩ := List.forall₂_cons_left_iff.mp hds₂
      obtain ⟨transposeB, _, h₄, hds₄, rfl⟩ := List.forall₂_cons_left_iff.mp hds₃
      obtain rfl := List.forall₂_nil_left_iff.mp hds₄
      have hfillA := transpose_carries (T := []) h₂ ha htmp
      have hfillB := transpose_carries (T := []) h₄ hb htmp
      rw [Nat.mul_comm] at hfillA hfillB
      exact ⟨_, hfillB, _, product_reads_right h₃ hgo hga, _, hfillA,
        _, product_reads_left h₁ hgo hgb, trivial⟩
    | conv2d pad stride =>
      obtain ⟨gradKernel, _, h₁, hds₁, rfl⟩ := List.forall₂_cons_left_iff.mp hds
      obtain ⟨gradInput, _, h₂, hds₂, rfl⟩ := List.forall₂_cons_left_iff.mp hds₁
      obtain ⟨rotate, _, h₃, hds₃, rfl⟩ := List.forall₂_cons_left_iff.mp hds₂
      obtain rfl := List.forall₂_nil_left_iff.mp hds₃
      have hfill := rotate_carries (T := []) h₃ hb htmp
      rw [Nat.mul_right_comm] at hfill
      refine ⟨_, hfill, _, convolution_reads h₂ hgo hga, _, h₁.carries ?_, trivial⟩
      intro k hk
      simp only [request, KernelArg.int, KernelArg.signed, List.mem_cons, List.not_mem_nil,
        KernelArg.buffer.injEq, reduceCtorEq, or_false] at hk
      obtain rfl | rfl | rfl := hk
      · exact ha
      · exact hgo
      · exact hgb
    | _ => exact hop.elim
  · have hall : ∀ d ∈ ds, b₀.Carries A [] [] d := by
      intro d hd
      obtain ⟨i, hi⟩ := List.getElem?_of_mem hd
      obtain ⟨r, hr, himp⟩ := forall₂_getElem? hds.flip hi
      exact himp.carries fun k hk =>
        lasting k (backwardRequests_lasting hop a b tile (List.mem_of_getElem? hr) hk)
    exact .of_forall fun d hd => hall d (List.mem_reverse.mp hd)

end Operator

end Backprop
