import Mathlib
import Backprop.Proofs.Network.Effects
import Backprop.Proofs.Training.Descent

/-! The update pass: one dispatch for each parameter, which takes one step of the rule there and
does not reach any other tensor. -/

namespace Backprop

variable {α : Type}

theorem forall₂_append_left {β γ : Type} {R : β → γ → Prop} {l l' : List β} {r : List γ}
    (h : List.Forall₂ R (l ++ l') r) :
    ∃ s s', r = s ++ s' ∧ List.Forall₂ R l s ∧ List.Forall₂ R l' s' :=
  ⟨_, _, (List.take_append_drop l.length r).symm, (List.forall₂_take_append _ _ _ h.flip).flip,
    (List.forall₂_drop_append _ _ _ h.flip).flip⟩

theorem Backend.Later.runs [Scalar α] {b b₁ b₂ : Backend α} {ds : List (Dispatch α)}
    (h : b.Later b₁) (hr : Runs ds b₁ b₂) : b.Later b₂ :=
  ⟨by rw [hr.same, h.same], hr.sizes.trans h.sizes⟩

namespace Network

variable {m k : Network α}

/-- The buffer is a part of a tensor other than the one at an index. -/
def IsElsewhere (m : Network α) (i : Nat) (h : BufferId) : Prop :=
  ∃ j u p, j ≠ i ∧ m.tensors[j]? = some u ∧ u.part? p = some h

theorem scheduled_update (m : Network α) : m.scheduled .update = [] := by
  refine List.eq_nil_iff_forall_not_mem.mpr fun r hr => ?_
  obtain ⟨step, -, hr⟩ := List.mem_flatMap.mp hr
  obtain ⟨i, -, hr⟩ := List.mem_flatMap.mp hr
  unfold emits at hr
  split at hr
  · cases hr
  · split at hr <;> cases hr

theorem updatesOf_written {o : Optimizer α} {u : Tensor} {r : Request α} (hr : r ∈ updatesOf o u)
    {h : BufferId} (hh : h ∈ r.written) : ∃ p, u.part? p = some h := by
  unfold updatesOf at hr
  split at hr
  · next rs hrs =>
    obtain ⟨j, hpart⟩ | ⟨j, hpart⟩ := Optimizer.requests_written hrs hr hh
    · exact ⟨_, hpart⟩
    · exact ⟨_, hpart⟩
  · cases hr

theorem Arranged.requests_ok [Zero α] {o : Optimizer α} {t : Tensor} {i : Nat}
    {allocation : Nat → Side → Nat} (ha : Arranged m o.auxiliaryCount allocation)
    (ht : m.tensors[i]? = some t) (kind : t.kind = .parameter) (sequence : 0 < t.sequence) :
    ∃ r, o.requests t = .ok [r] := by
  have hback : t.kind.hasBackward = true := by rw [kind]; rfl
  have hzero : t.currentSlot = 0 := by rw [Tensor.currentSlot, kind]
  have hslot : ∀ side, t.Lives side → ∃ l, t.slot side 0 = .ok l := by
    intro side hlives
    obtain ⟨hbase, stride, -, hslots⟩ := ha.side ht hlives
    exact ⟨_, Tensor.slot_ok_iff.mpr ⟨hbase, (hslots 0 (Tensor.slotCount_pos sequence)).1⟩⟩
  obtain ⟨weight, hw⟩ := hslot .forward t.lives_forward
  obtain ⟨gradient, hg⟩ := hslot .backward fun _ => hback
  have hforward : t.forwardBuffer .current = .ok weight := by rwa [Tensor.forwardBuffer, hzero]
  have hbackward : t.backwardBuffer .current = .ok gradient := by
    rw [Tensor.backwardBuffer, if_pos hback]
    rwa [hzero]
  obtain ⟨floor, hlayout⟩ := ha.layout
  have hsize : t.auxiliary.size = o.auxiliaryCount :=
    (hlayout.stored i t (Array.getElem?_eq_some_iff.mp ht).1 ht).size_auxiliary kind
  have hauxiliary : ∀ j < o.auxiliaryCount, ∃ l, t.forwardBuffer (.timestep j) = .ok l := by
    intro j hj
    have hget := Array.getElem?_eq_getElem (hsize ▸ hj)
    exact ⟨t.auxiliary[j], by simp only [Tensor.forwardBuffer, kind, if_true, hget]⟩
  cases o with
  | gradientDescent alpha =>
    simp only [Optimizer.requests, Except.bind_ok_iff, Except.pure_ok_iff]
    exact ⟨_, gradient, hbackward, weight, hforward, rfl⟩
  | adam alpha beta₁ beta₂ epsilon =>
    obtain ⟨first, hf⟩ := hauxiliary 0 (by simp [Optimizer.auxiliaryCount])
    obtain ⟨second, hs⟩ := hauxiliary 1 (by simp [Optimizer.auxiliaryCount])
    simp only [Optimizer.requests, Except.bind_ok_iff, Except.pure_ok_iff]
    exact ⟨_, gradient, hbackward, first, hf, second, hs, weight, hforward, rfl⟩

variable [Scalar α] {b : Backend α} {n : Network α} {batch alignment i : Nat} {o : Optimizer α}
  {t : Tensor}

section

variable (h : Compiled n m batch) (hd : m.Divided alignment n.auxiliaryCount)
  (ho : n.optimizer = some o) (ht : m.tensors[i]? = some t) (kind : t.kind = .parameter)

include h ho ht kind

theorem Compiled.update_split (sequence : 0 < t.sequence) : ∃ r before d after,
    o.requests t = .ok [r] ∧
      (m.backend.dispatches.get .update).toList = before ++ d :: after ∧
      m.backend.Implements r d ∧
      ∀ d' ∈ before ++ after, ∀ l, m.backend.Writes d' l → m.IsElsewhere i l := by
  have hcount : n.auxiliaryCount = o.auxiliaryCount := by rw [auxiliaryCount, ho]; rfl
  obtain ⟨allocation, ha⟩ := hcount ▸ h.arranged
  obtain ⟨r, hr⟩ := ha.requests_ok ht kind sequence
  have hi := (Array.getElem?_eq_some_iff.mp ht).1
  have hsplit : m.tensors.toList =
      m.tensors.toList.take i ++ t :: m.tensors.toList.drop (i + 1) := by
    have hlength : i < m.tensors.toList.length := by simpa using hi
    have hget : t = m.tensors.toList[i] := by simpa using (Array.getElem?_eq_some_iff.mp ht).2.symm
    rw [hget, List.getElem_cons_drop, List.take_append_drop]
  have hrequest : updatesOf o t = [r] := by rw [updatesOf, hr]
  have hlists := h.lists .update
  rw [if_pos rfl, scheduled_update, List.nil_append, updates, h.optimizer, ho] at hlists
  simp only at hlists
  rw [hsplit, List.filter_append, List.filter_cons_of_pos (by simpa using kind),
    List.flatMap_append, List.flatMap_cons, hrequest] at hlists
  obtain ⟨before, rest, hds, hbefore, hrest⟩ := forall₂_append_left hlists
  obtain ⟨d, after, himp, hafter, rfl⟩ := List.forall₂_cons_left_iff.mp hrest
  refine ⟨r, before, d, after, hr, hds, himp, fun d' hd' l hl => ?_⟩
  have helsewhere : ∀ us : List Tensor, (∀ u ∈ us, ∃ j, j ≠ i ∧ m.tensors[j]? = some u) →
      ∀ es, List.Forall₂ m.backend.Implements ((us.filter (·.kind == .parameter)).flatMap
        (updatesOf o)) es → d' ∈ es → m.IsElsewhere i l := by
    intro us hus es hes hmem
    obtain ⟨p, hp⟩ := List.getElem?_of_mem hmem
    obtain ⟨r', hr', himp'⟩ := forall₂_getElem? hes.flip hp
    obtain ⟨u, hu, hr'⟩ := List.mem_flatMap.mp (List.mem_of_getElem? hr')
    obtain ⟨j, hj, hget⟩ := hus u (List.mem_filter.mp hu).1
    obtain ⟨q, hq⟩ := updatesOf_written hr' (himp'.writes hl)
    exact ⟨j, u, q, hj, hget, hq⟩
  obtain hmem | hmem := List.mem_append.mp hd'
  · refine helsewhere _ (fun u hu => ?_) before hbefore hmem
    obtain ⟨j, hj⟩ := List.getElem?_of_mem hu
    rw [List.getElem?_take] at hj
    split at hj
    · next hlt => exact ⟨j, by omega, by simpa using hj⟩
    · cases hj
  · refine helsewhere _ (fun u hu => ?_) after hafter hmem
    obtain ⟨j, hj⟩ := List.getElem?_of_mem hu
    rw [List.getElem?_drop] at hj
    exact ⟨i + 1 + j, by omega, by simpa using hj⟩

theorem Compiled.update_unique (sequence : 0 < t.sequence) :
    ∃ weight, t.part? (.slot .forward 0) = some weight ∧
      ∃! position : Nat, ∃ d, (m.backend.dispatches.get .update)[position]? = some d ∧
        m.backend.Writes d weight := by
  obtain ⟨allocation, ha⟩ := h.arranged
  obtain ⟨r, before, d, after, hr, hlist, himp, helsewhere⟩ :=
    h.update_split ho ht kind sequence
  obtain ⟨weight, hw, hwrites⟩ := Optimizer.requests_weight kind hr himp
  have hget : ∀ position : Nat, (m.backend.dispatches.get .update)[position]? =
      (before ++ d :: after)[position]? := by
    intro position
    rw [← hlist, Array.getElem?_toList]
  refine ⟨weight, hw, before.length, ⟨d, by simp [hget], hwrites⟩, ?_⟩
  rintro position ⟨d', hd', hwrites'⟩
  by_contra hne
  have hmem : d' ∈ before ++ after := by
    rw [hget] at hd'
    obtain hlt | hlt := Nat.lt_or_gt_of_ne hne
    · rw [List.getElem?_append_left hlt] at hd'
      exact List.mem_append_left _ (List.mem_of_getElem? hd')
    · rw [List.getElem?_append_right hlt.le, List.getElem?_cons, if_neg (by omega)] at hd'
      exact List.mem_append_right _ (List.mem_of_getElem? hd')
  obtain ⟨j, u, p, hj, hu, hp⟩ := helsewhere d' hmem weight hwrites'
  -- the weights lie in an allocation of their own
  obtain ⟨-, stride, -, hslots⟩ := ha.side ht t.lives_forward
  obtain ⟨hslot, -, hwindow⟩ := hslots 0 (Tensor.slotCount_pos sequence)
  rw [show (t.storage .forward).slots[0]? = some weight from hw, Option.some.injEq] at hslot
  rw [← hslot] at hwindow
  exact ha.part_apart hu hp hwindow ht t.lives_forward (fun _ _ => hj) rfl

include hd

/-- An update pass that succeeds takes one step of the rule for the parameter, and counts it. -/
theorem Compiled.update_steps (sequence : 0 < t.sequence) (used : m.Used k) {runs : Nat}
    (hcounts : (k.backend.dispatches.get .update).toList =
      (m.backend.dispatches.get .update).toList.map Dispatch.afterRun^[runs])
    (hruns : runs + 1 < 2 ^ 31) {c : Backend α} (hrun : Backend.run .update k.backend = .ok ⟨⟩ c) :
    t.Steps o (runs + 1) k.backend c ∧
      (c.dispatches.get .update).toList =
        (m.backend.dispatches.get .update).toList.map Dispatch.afterRun^[runs + 1] := by
  obtain ⟨r, before, d, after, hr, hlist, himp, helsewhere⟩ :=
    h.update_split ho ht kind sequence
  obtain ⟨hplay, hlists⟩ := Backend.run_ok hrun
  refine ⟨?_, ?_⟩
  · rw [Backend.inPlayOrder, hcounts, hlist, List.map_append, List.map_cons] at hplay
    obtain ⟨k₁, hbefore, k₂, ⟨dev, he, rfl⟩, hafter⟩ := Backend.Runs.append.mp hplay
    -- the other dispatches leave all parts of the parameter alone
    have hothers : ∀ (ds : List (Dispatch α)) (b₁ b₂ : Backend α),
        (∀ d' ∈ ds, d' ∈ before ++ after) → m.backend.Later b₁ →
        Backend.Runs (ds.map Dispatch.afterRun^[runs]) b₁ b₂ →
        m.backend.Later b₂ ∧ ∀ p, t.values b₂ p = t.values b₁ p := by
      intro ds b₁ b₂ hds hlater hds'
      have halters : b₁.Alters b₂ (m.IsElsewhere i) := by
        refine hds'.alters fun d' hd' l hl => ?_
        obtain ⟨e, he, rfl⟩ := List.mem_map.mp hd'
        exact helsewhere e (hds e he) l (hl.of_counted hlater.kernels ⟨runs, rfl⟩)
      refine ⟨hlater.runs hds', fun p => ?_⟩
      cases hp : t.part? p with
      | none => simp only [Tensor.values, hp]
      | some l =>
        rw [Tensor.values_part hp, Tensor.values_part hp]
        refine halters.contents ?_
        rintro l' ⟨j, u, q, hj, hu, hq⟩
        exact (hd.apart ht hp hu hq (by simp [hj.symm])).congr hlater.buffers
    obtain ⟨hlater₁, hvalues₁⟩ := hothers before _ _
      (fun _ => List.mem_append_left _) used.later hbefore
    have hone : Backend.Runs [Dispatch.afterRun^[runs] d] k₁ { k₁ with device := dev } :=
      ⟨_, ⟨dev, he, rfl⟩, rfl⟩
    obtain ⟨-, hvalues₂⟩ := hothers after _ _ (fun _ => List.mem_append_right _)
      (hlater₁.runs hone) hafter
    have hsteps : t.Steps o (runs + 1) k₁ { k₁ with device := dev } := by
      refine Optimizer.requests_steps kind hr himp hlater₁.kernels hruns ?_ he
      intro p q l l' hne hp hq
      exact (hd.apart ht hp ht hq (by simpa using hne)).congr hlater₁.buffers
    exact hsteps.congr hvalues₁ hvalues₂
  · rw [hlists, PerPass.get_modify_self, Array.toList_map, hcounts, List.map_map,
      ← Function.iterate_succ']

end

end Network

end Backprop
