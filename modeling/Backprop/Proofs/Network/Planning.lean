import Mathlib
import Backprop.Network.Compile
import Backprop.Proofs.Backend.Allocation
import Backprop.Proofs.Network.Sketch

/-! The first stages of a compilation: tensors get the rows of the batch, and scratch tensors
join them that are large enough for every operator. -/

namespace Backprop.Network

variable {α : Type} {n m : Network α} {batch : Nat}

def batchTensor (n : Network α) (batch i : Nat) (t : Tensor) : Tensor :=
  if ⟨i⟩ ∈ n.reducedOutputs then t else t.withBatch batch

theorem batchTensor_eq (n : Network α) (batch i : Nat) (t : Tensor) :
    n.batchTensor batch i t = { t with shape := (n.batchTensor batch i t).shape } := by
  unfold batchTensor Tensor.withBatch
  split
  · rfl
  · split <;> rfl

theorem batchTensor_sound {t : Tensor} (n : Network α) (batch i : Nat) (h : t.Sound) :
    (n.batchTensor batch i t).Sound := by
  rw [batchTensor_eq]
  refine ⟨h.sequence, h.cursor, ?_, h.bare⟩
  have he := h.elements
  unfold batchTensor Tensor.withBatch
  split
  · exact he
  · split
    · rw [Shape.elements_eq_rowElements_mul] at he ⊢
      exact Nat.mul_pos (Nat.pos_of_mul_pos_right he) (by simp [Shape.withRows])
    · exact he

theorem applyBatch_ok_iff :
    applyBatch batch n = .ok ⟨⟩ m ↔
      (n.tensors.mapIdx (n.batchTensor batch)).foldl (fun largest t => max largest t.shape.elements)
          0 * 4 ≤ sequenceLimit ∧
        m = { n with
          batch
          tensors := n.tensors.mapIdx (n.batchTensor batch)
          staging := (n.tensors.mapIdx (n.batchTensor batch)).foldl
            (fun largest t => max largest t.shape.elements) 0 } := by
  unfold applyBatch
  simp only [Call.bind_ok_iff, Call.get_ok_iff, Call.set_ok_iff, Call.ofExcept_ok_iff,
    requireRoom_ok_iff]
  constructor
  · rintro ⟨_, _, ⟨rfl, rfl⟩, _, _, ⟨hroom, rfl⟩, rfl⟩
    exact ⟨hroom, rfl⟩
  · rintro ⟨hroom, rfl⟩
    exact ⟨_, _, ⟨rfl, rfl⟩, ⟨⟩, _, ⟨hroom, rfl⟩, rfl⟩

/-! ### Scratch -/

/-- The sizes are enough for all needs. -/
def Covers (sizes needs : List Nat) : Prop :=
  ∀ k need : Nat, needs[k]? = some need → ∃ size, sizes[k]? = some size ∧ need ≤ size

theorem Covers.refl (l : List Nat) : Covers l l := fun _ need h => ⟨need, h, le_rfl⟩

theorem Covers.trans {as bs cs : List Nat} (h : Covers as bs) (h' : Covers bs cs) :
    Covers as cs := by
  intro k need hk
  obtain ⟨size, hs, hle⟩ := h' k need hk
  obtain ⟨size', hs', hle'⟩ := h k size hs
  exact ⟨size', hs', hle.trans hle'⟩

theorem Covers.length_le {sizes needs : List Nat} (h : Covers sizes needs) :
    needs.length ≤ sizes.length := by
  by_contra hlt
  have hlast : sizes.length < needs.length := by omega
  obtain ⟨size, hs, -⟩ := h sizes.length needs[sizes.length] (by simp [hlast])
  simp at hs

theorem pointwiseMax_covers_left (as bs : List Nat) : Covers (pointwiseMax as bs) as := by
  induction as generalizing bs with
  | nil => intro k need h; simp at h
  | cons a as ih =>
    cases bs with
    | nil => exact .refl _
    | cons c bs =>
      rintro (_ | k) need h
      · cases h
        exact ⟨max a c, rfl, Nat.le_max_left a c⟩
      · exact ih bs k need h

theorem pointwiseMax_covers_right (as bs : List Nat) : Covers (pointwiseMax as bs) bs := by
  induction as generalizing bs with
  | nil => exact .refl _
  | cons a as ih =>
    cases bs with
    | nil => intro k need h; simp at h
    | cons c bs =>
      rintro (_ | k) need h
      · cases h
        exact ⟨max a c, rfl, Nat.le_max_right a c⟩
      · exact ih bs k need h

theorem foldl_pointwiseMax_covers (needs : List (List Nat)) (start : List Nat) :
    Covers (needs.foldl pointwiseMax start) start ∧
      ∀ need ∈ needs, Covers (needs.foldl pointwiseMax start) need := by
  induction needs generalizing start with
  | nil => exact ⟨.refl _, by simp⟩
  | cons l needs ih =>
    obtain ⟨hstart, hneeds⟩ := ih (pointwiseMax start l)
    refine ⟨hstart.trans (pointwiseMax_covers_left start l), fun need hn => ?_⟩
    obtain rfl | hn := List.mem_cons.mp hn
    · exact hstart.trans (pointwiseMax_covers_right start need)
    · exact hneeds need hn

def scratchTensor (elements : Nat) : Tensor := (Tensor.ofKind .scratch ⟨1, 1, 1, 1⟩ 1).grow elements

theorem scratchTensor_eq (elements : Nat) :
    scratchTensor elements =
      { Tensor.ofKind .scratch ⟨1, 1, 1, 1⟩ 1 with shape := ⟨max elements 1, 1, 1, 1⟩ } := by
  unfold scratchTensor Tensor.grow Tensor.ofKind
  by_cases h : 1 < elements
  · simp [Shape.elements, h, Nat.max_eq_left (Nat.le_of_lt h)]
  · simp [Shape.elements, h, Nat.max_eq_right (Nat.le_of_not_lt h)]

theorem scratchTensor_sound (elements : Nat) : (scratchTensor elements).Sound := by
  rw [scratchTensor_eq]
  exact ⟨by simp [Tensor.ofKind], rfl, by simp [Shape.elements], rfl, rfl, rfl⟩

def scratchIds (n : Network α) (count : Nat) : List TensorId :=
  (List.range count).map fun k => ⟨n.tensors.size + k⟩

theorem planScratch_ok_iff :
    planScratch n = .ok ⟨⟩ m ↔ ∃ needs, n.nodes.toList.mapM n.nodeScratch = .ok needs ∧
      m = { n with
        tensors := n.tensors ++ ((needs.foldl pointwiseMax []).map scratchTensor).toArray
        scratch := n.scratch ++ n.scratchIds (needs.foldl pointwiseMax []).length
        nodes := n.nodes.mapIdx fun i node => { node with
          scratch := (n.scratchIds (needs.foldl pointwiseMax []).length).take
            ((needs[i]?.map (·.length)).getD 0) } } := by
  unfold planScratch
  simp only [Call.bind_ok_iff, Call.get_ok_iff, Call.set_ok_iff, Call.ofExcept_ok_iff]
  constructor
  · rintro ⟨_, _, ⟨rfl, rfl⟩, needs, _, ⟨hn, rfl⟩, rfl⟩
    exact ⟨needs, hn, rfl⟩
  · rintro ⟨needs, hn, rfl⟩
    exact ⟨_, _, ⟨rfl, rfl⟩, needs, _, ⟨hn, rfl⟩, rfl⟩

/-- The second network is the first after its tensors have been batched and scratch has been
planned. -/
structure Planned (n m : Network α) (batch : Nat) : Prop where
  same : ∃ staging tensors nodes scratch,
    m = { n with batch, staging, tensors, nodes, scratch }
  tensor : ∀ (i : Nat) (t : Tensor), n.tensors[i]? = some t →
    m.tensors[i]? = some (n.batchTensor batch i t)
  scratch : ∀ (i : Nat) (t : Tensor), n.tensors.size ≤ i → m.tensors[i]? = some t →
    ∃ elements, t = scratchTensor elements
  size_nodes : m.nodes.size = n.nodes.size
  node : ∀ (i : Nat) (node : Node α), n.nodes[i]? = some node →
    ∃ ids needs, m.nodes[i]? = some { node with scratch := ids } ∧
      (∀ x ∈ ids, n.tensors.size ≤ x.index) ∧ m.nodeScratch node = .ok needs ∧
      List.Forall₂ (fun x need => ∃ t, m.tensors[x.index]? = some t ∧ need ≤ t.shape.elements)
        ids needs

theorem plan_ok {m₁ : Network α} (h₁ : applyBatch batch n = .ok ⟨⟩ m₁)
    (h₂ : planScratch m₁ = .ok ⟨⟩ m) : Planned n m batch := by
  obtain ⟨-, rfl⟩ := applyBatch_ok_iff.mp h₁
  obtain ⟨needs, hneeds, rfl⟩ := planScratch_ok_iff.mp h₂
  clear h₁ h₂
  have hcovers := (foldl_pointwiseMax_covers needs []).2
  generalize hsizes : needs.foldl pointwiseMax [] = sizes at *
  refine ⟨⟨_, _, _, _, rfl⟩, fun i t ht => ?_, fun i t hi ht => ?_, by simp, fun i node hi => ?_⟩
  · have hlt := (Array.getElem?_eq_some_iff.mp ht).1
    simp only
    rw [Array.getElem?_append_left (by simpa using hlt), Array.getElem?_mapIdx, ht]
    rfl
  · simp only at ht
    rw [Array.getElem?_append_right (by simpa using hi)] at ht
    simp only [List.getElem?_toArray, List.getElem?_map, Option.map_eq_some_iff] at ht
    obtain ⟨e, -, rfl⟩ := ht
    exact ⟨e, rfl⟩
  · have hlist : n.nodes.toList[i]? = some node := by simpa using hi
    obtain ⟨need, hneed, hscratch⟩ := forall₂_getElem? (Except.mapM_ok_iff.mp hneeds) hlist
    have hcov := hcovers need (List.mem_of_getElem? hneed)
    have hlen := hcov.length_le
    refine ⟨_, need, by simp [hi, hneed]; rfl, fun x hx => ?_, ?_, ?_⟩
    · have hx' := List.mem_of_mem_take hx
      simp only [scratchIds, List.mem_map, Array.size_mapIdx] at hx'
      obtain ⟨k, -, rfl⟩ := hx'
      simp
    · simp only [nodeScratch, Except.bind_ok_iff, Except.mapM_ok_iff, Except.pure_ok_iff] at hscratch ⊢
      obtain ⟨shapes, hs, he⟩ := hscratch
      refine ⟨shapes, hs.imp fun x s hx => ?_, he⟩
      simp only [shape, Except.map_ok_iff, tensor_ok_iff] at hx ⊢
      obtain ⟨t, ht, hts⟩ := hx
      refine ⟨t, ?_, hts⟩
      rw [Array.getElem?_append_left (Array.getElem?_eq_some_iff.mp ht).1, ht]
    · rw [List.forall₂_iff_get]
      refine ⟨by simp [scratchIds, hlen], fun k h₁ h₂ => ?_⟩
      obtain ⟨size, hsize, hle⟩ := hcov k need[k] (by simp [h₂])
      refine ⟨scratchTensor size, ?_, ?_⟩
      · simp only [scratchIds, Array.size_mapIdx, List.get_eq_getElem, List.getElem_take,
          List.getElem_map, List.getElem_range]
        rw [Array.getElem?_append_right (by simp)]
        simp [hsize]
      · rw [scratchTensor_eq]
        simp only [List.get_eq_getElem, Shape.elements]
        omega

end Backprop.Network
