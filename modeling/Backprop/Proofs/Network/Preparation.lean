import Mathlib
import Backprop.Proofs.Network.Compiled
import Backprop.Proofs.Network.Graph

/-! The stages of a compilation before first values are drawn, and what they leave to be drawn
into. -/

namespace Backprop

variable {α β : Type}

theorem le_foldl_max (size : β → Nat) (l : List β) (start : Nat) :
    start ≤ l.foldl (fun largest x => max largest (size x)) start ∧
      ∀ x ∈ l, size x ≤ l.foldl (fun largest x => max largest (size x)) start := by
  induction l generalizing start with
  | nil => simp
  | cons x l ih =>
    obtain ⟨hstart, hl⟩ := ih (max start (size x))
    refine ⟨(le_max_left _ _).trans hstart, fun y hy => ?_⟩
    obtain rfl | hy := List.mem_cons.mp hy
    · exact (le_max_right _ _).trans hstart
    · exact hl y hy

theorem foldl_max_le {size : β → Nat} {l : List β} {start bound : Nat} (hs : start ≤ bound)
    (h : ∀ x ∈ l, size x ≤ bound) : l.foldl (fun largest x => max largest (size x)) start ≤ bound := by
  induction l generalizing start with
  | nil => exact hs
  | cons x l ih =>
    exact ih (max_le hs (h x List.mem_cons_self)) fun y hy => h y (List.mem_cons_of_mem _ hy)

namespace Network

variable [Scalar α] {b : Backend α} {n m : Network α} {batch : Nat}

/-- The stages of a compilation before first values are drawn. -/
def prepare (batch : Nat) : Call α Unit := do
  applyBatch batch
  planScratch
  instantiateAll
  emitAll
  emitUpdates
  clearAll

theorem compileStages_eq (batch : Nat) :
    compileStages (α := α) batch = prepare batch >>= fun _ => drawInitials := by
  simp only [compileStages, prepare, bind_assoc]

theorem prepare_ok_iff {batch : Nat} : prepare batch n = .ok ⟨⟩ m ↔ ∃ m₁ m₂ m₃ m₄ m₅,
    applyBatch batch n = .ok ⟨⟩ m₁ ∧ planScratch m₁ = .ok ⟨⟩ m₂ ∧ instantiateAll m₂ = .ok ⟨⟩ m₃ ∧
      emitAll m₃ = .ok ⟨⟩ m₄ ∧ emitUpdates m₄ = .ok ⟨⟩ m₅ ∧ clearAll m₅ = .ok ⟨⟩ m := by
  simp only [prepare, Call.bind_ok_iff]
  constructor
  · rintro ⟨⟨⟩, m₁, h₁, ⟨⟩, m₂, h₂, ⟨⟩, m₃, h₃, ⟨⟩, m₄, h₄, ⟨⟩, m₅, h₅, h₆⟩
    exact ⟨m₁, m₂, m₃, m₄, m₅, h₁, h₂, h₃, h₄, h₅, h₆⟩
  · rintro ⟨m₁, m₂, m₃, m₄, m₅, h₁, h₂, h₃, h₄, h₅, h₆⟩
    exact ⟨⟨⟩, m₁, h₁, ⟨⟩, m₂, h₂, ⟨⟩, m₃, h₃, ⟨⟩, m₄, h₄, ⟨⟩, m₅, h₅, h₆⟩

theorem compile_ok_iff_draws : compile batch n = .ok ⟨⟩ m ↔ n.stage = .building ∧
    ∃ k m', prepare (max batch 1) n = .ok ⟨⟩ k ∧ drawInitials k = .ok ⟨⟩ m' ∧
      m = { m' with stage := .compiled } := by
  rw [compile_ok_iff]
  refine and_congr_right fun _ => ?_
  simp only [prepare_ok_iff]
  constructor
  · rintro ⟨m₁, m₂, m₃, m₄, m₅, k, m', h₁, h₂, h₃, h₄, h₅, h₆, h₇, hm⟩
    exact ⟨k, m', ⟨m₁, m₂, m₃, m₄, m₅, h₁, h₂, h₃, h₄, h₅, h₆⟩, h₇, hm⟩
  · rintro ⟨k, m', ⟨m₁, m₂, m₃, m₄, m₅, h₁, h₂, h₃, h₄, h₅, h₆⟩, h₇, hm⟩
    exact ⟨m₁, m₂, m₃, m₄, m₅, k, m', h₁, h₂, h₃, h₄, h₅, h₆, h₇, hm⟩

theorem compile_of_failed_draws {m' : Network α} {e : Error} (stage : n.stage = .building)
    (h : prepare (max batch 1) n = .ok ⟨⟩ m) (hd : drawInitials m = .error e m') :
    compile batch n = .error e { m' with stage := .failed } := by
  have hrequire : requireBuilding n = .ok ⟨⟩ n := requireBuilding_ok_iff.mpr ⟨stage, rfl⟩
  have hstages : compileStages (max batch 1) n = .error e m' := by
    rw [compileStages_eq]
    exact Call.bind_error_iff.mpr (.inr ⟨⟨⟩, m, h, hd⟩)
  exact Call.bind_error_iff.mpr (.inr ⟨⟨⟩, n, hrequire, by simp only [hstages]⟩)

/-- Whether a first value can be given to the tensor that it is asked for. -/
def Settable (n : Network α) (p : TensorId × Initializer) : Prop :=
  IsParameter n.tensors p.1 ∧ (n.shapeOf p.1).elements * 4 ≤ sequenceLimit

/-- A network that first values can be written into. -/
structure Prepared (n m : Network α) : Prop where
  initializers : m.initializers = n.initializers
  generator : m.generator = n.generator
  settable : ∀ p ∈ n.initializers, m.Settable p
  shapeOf : ∀ p ∈ n.initializers, m.shapeOf p.1 = n.shapeOf p.1
  layout : ∃ floor allocation,
    Layout m.backend floor n.auxiliaryCount m.tensors m.tensors.size allocation ∧
      ∀ a, floor ≤ a → m.backend.Blank a

omit [Scalar α] in
theorem batchTensor_parameter {i : Nat} {t : Tensor} (ht : t.kind = .parameter) :
    n.batchTensor batch i t = t := by
  unfold batchTensor Tensor.withBatch
  split
  · rfl
  · rw [if_neg (by simp [ht, TensorKind.followsBatch])]

omit [Scalar α] in
theorem applyBatch_room (h : applyBatch batch n = .ok ⟨⟩ m) {i : Nat} {t : Tensor}
    (ht : n.tensors[i]? = some t) :
    (n.batchTensor batch i t).shape.elements * 4 ≤ sequenceLimit := by
  obtain ⟨hroom, -⟩ := applyBatch_ok_iff.mp h
  have hmem : n.batchTensor batch i t ∈ (n.tensors.mapIdx (n.batchTensor batch)).toList := by
    rw [Array.mem_toList_iff]
    refine Array.mem_of_getElem? (i := i) ?_
    rw [Array.getElem?_mapIdx, ht, Option.map_some]
  rw [← Array.foldl_toList] at hroom
  exact (Nat.mul_le_mul_right 4 ((le_foldl_max (·.shape.elements) _ 0).2 _ hmem)).trans hroom

omit [Scalar α] in
theorem Outline.initializer (hn : Outline b n) {p : TensorId × Initializer}
    (hp : p ∈ n.initializers) : ∃ u, n.tensors[p.1.index]? = some u ∧ u.kind = .parameter ∧
      0 < u.shape.elements := by
  obtain ⟨v, hv, hkind⟩ := hn.initializers p hp
  obtain ⟨u, hu, rfl⟩ := Option.map_eq_some_iff.mp ((plain_getElem? n _).symm.trans hv)
  exact ⟨u, hu, hkind, (hn.tensors _ _ hv).1.elements⟩

theorem prepare_ok (hn : Outline b n) (idle : b.Idle)
    (h : prepare (max batch 1) n = .ok ⟨⟩ m) : Prepared n m := by
  obtain ⟨m₁, m₂, m₃, m₄, m₅, h₁, h₂, h₃, h₄, h₅, h₆⟩ := prepare_ok_iff.mp h
  have hplan := plan_ok h₁ h₂
  obtain ⟨hidle, hrewound⟩ := hplan.ready hn idle h₃
  have hun := emitAll_ok hidle.sound hrewound h₄
  obtain ⟨hm₅, hrec⟩ := emitUpdates_ok hun.recorded.sound h₅
  have hinst := instantiateAll_ok (fun i t ht => (hplan.sound hn ht).sequence) h₃
  obtain ⟨hm, -⟩ := clearAll_ok h₆
  obtain ⟨staging, ts, nodes, scratch, hm₂⟩ := hplan.same
  have htensors : m.tensors = m₃.tensors := by rw [hm, hm₅, hun.same]
  have hauxiliary : m₂.auxiliaryCount = n.auxiliaryCount := by rw [hm₂]; rfl
  obtain ⟨allocation, hl, hblank⟩ := hinst.cleared rfl hun hm₅ hrec h₆
  have hparameter : ∀ p ∈ n.initializers, ∃ u t, n.tensors[p.1.index]? = some u ∧
      m.tensors[p.1.index]? = some t ∧ t.kind = .parameter ∧ t.shape = u.shape ∧
      u.shape.elements * 4 ≤ sequenceLimit := by
    intro p hp
    obtain ⟨u, hu, hkind, -⟩ := hn.initializer hp
    have hroom := applyBatch_room h₁ hu
    obtain ⟨t, ht, hsame, -⟩ := hinst.tensor _ _ (hplan.tensor _ u hu)
    rw [batchTensor_parameter hkind] at hroom hsame
    refine ⟨u, t, hu, htensors ▸ ht, ?_, ?_, hroom⟩
    · rw [hsame]
      exact hkind
    · rw [hsame]
  refine
    { initializers := by rw [hm, hm₅, hun.same, hinst.same, hm₂]
      generator := by rw [hm, hm₅, hun.same, hinst.same, hm₂]
      settable := fun p hp => ?_
      shapeOf := fun p hp => ?_
      layout := ⟨_, allocation, hauxiliary ▸ hl, hblank⟩ }
  · obtain ⟨u, t, hu, ht, hkind, hshape, hroom⟩ := hparameter p hp
    refine ⟨⟨t, ht, hkind⟩, ?_⟩
    rw [shapeOf_eq ht, hshape]
    exact hroom
  · obtain ⟨u, t, hu, ht, -, hshape, -⟩ := hparameter p hp
    rw [shapeOf_eq ht, shapeOf_eq hu, hshape]

end Network

end Backprop
