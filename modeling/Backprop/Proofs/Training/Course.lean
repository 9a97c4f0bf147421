import Mathlib
import Backprop.Proofs.Network.Progress
import Backprop.Proofs.Training.Evaluation

/-! Learning over a whole course of training: whatever else is asked of a compiled network between
its updates, each weight and its moments follow the recurrence of the rule. -/

namespace Backprop

namespace Network

variable {α : Type}

/-- What can be asked of a compiled network. -/
inductive Use (α : Type) where
  | pass (p : Pass)
  | clearBuffers
  | batchDone
  | readTensor (id : TensorId) (timestep : Nat)
  | readGradient (id : TensorId) (timestep : Nat)
  | readAuxiliary (id : TensorId) (index : Nat)
  | writeTensor (id : TensorId) (timestep : Nat) (data : Array α)
  | writeSequence (id : TensorId) (data : Array α) (steps : Nat)
  | writeGradient (id : TensorId) (timestep : Nat) (data : Array α)

namespace Use

def call [Scalar α] : Use α → Call α Unit
  | pass p => run p
  | clearBuffers => Network.clearBuffers
  | batchDone => Network.batchDone
  | readTensor id timestep => discard (Network.readTensor id timestep)
  | readGradient id timestep => discard (Network.readGradient id timestep)
  | readAuxiliary id index => discard (Network.readAuxiliary id index)
  | writeTensor id timestep data => Network.writeTensor id timestep data
  | writeSequence id data steps => Network.writeSequence id data steps
  | writeGradient id timestep data => Network.writeGradient id timestep data

def updates : Use α → Bool
  | pass .update | batchDone => true
  | _ => false

def gives (id : TensorId) : Use α → Prop
  | writeTensor target _ _ | writeSequence target _ _ => target = id
  | _ => False

end Use

def held (k : Network α) (i : Nat) (p : Part) : Array α :=
  match k.tensors[i]? with
  | some t => t.values k.backend p
  | none => #[]

/-- What is remembered of a parameter: its weights before the first update, and the gradient that
each update has found. -/
structure History (α : Type) where
  weights : Array α
  gradients : List (Array α) := []

/-- The history after a use, between the networks before and after it. -/
def History.next (h : History α) (i : Nat) (u : Use α) (before after : Network α) : History α :=
  if u.updates then { h with gradients := h.gradients ++ [before.held i (.slot .backward 0)] }
  else if h.gradients.isEmpty then { h with weights := after.held i (.slot .forward 0) }
  else h

/-- Uses of a compiled network that all succeed, with the history of the parameter at an index. The
host gives it no values once it has been updated. -/
inductive Course [Scalar α] (m : Network α) (i : Nat) : Network α → History α → Prop
  | start : Course m i m ⟨m.held i (.slot .forward 0), []⟩
  | use {k k' : Network α} {h : History α} (u : Use α) (course : Course m i k h)
      (early : u.gives ⟨i⟩ → h.gradients = []) (ok : u.call k = .ok ⟨⟩ k') :
      Course m i k' (h.next i u k k')

theorem keeps_readGradient {P : Network α → Prop} (id : TensorId) (timestep : Nat) :
    Call.Keeps P (readGradient id timestep) fun _ => True := by
  refine keeps_requireCompiled.bind fun _ _ => Call.Keeps.get.bind fun n _ => ?_
  refine (Call.Keeps.ofExcept (Q := fun _ => True) fun _ _ => trivial).bind fun t _ => ?_
  refine (Call.Keeps.ofExcept (Q := fun _ => True) fun _ _ => trivial).bind fun h _ => ?_
  exact keeps_readBuffer t h

theorem keeps_readAuxiliary {P : Network α → Prop} (id : TensorId) (index : Nat) :
    Call.Keeps P (readAuxiliary id index) fun _ => True := by
  refine keeps_requireCompiled.bind fun _ _ => Call.Keeps.get.bind fun n _ => ?_
  refine (Call.Keeps.ofExcept (Q := fun _ => True) fun _ _ => trivial).bind fun t _ => ?_
  refine Call.Keeps.throw_ite ?_
  refine (Call.Keeps.ofExcept (Q := fun _ => True) fun _ _ => trivial).bind fun h _ => ?_
  exact keeps_readBuffer t h

variable [Scalar α] {b : Backend α} {n m k k' : Network α} {batch alignment i : Nat}
  {o : Optimizer α} {t : Tensor}

/-! ### Between updates -/

/-- The parts of a parameter that a use leaves alone when it does not move it. -/
def Use.spares (u : Use α) (i : Nat) : Part → Prop
  | .slot .forward _ => ¬u.gives ⟨i⟩
  | .slot .backward _ => False
  | .auxiliary _ => True

/-- The network is in use still; nothing has been counted, and some parts of a tensor are as they
were. -/
structure Rests (m : Network α) (t : Tensor) (P : Part → Prop) (k k' : Network α) : Prop where
  used : m.Used k'
  counts : k'.backend.dispatches.get .update = k.backend.dispatches.get .update
  values : ∀ p, P p → t.values k'.backend p = t.values k.backend p

theorem Confined.rests {H : BufferId → Prop} {P : Part → Prop} (hc : k.Confined k' H)
    (used : m.Used k)
    (counts : k'.backend.dispatches.get .update = k.backend.dispatches.get .update)
    (apart : ∀ p l, P p → t.part? p = some l → ∀ h, H h → m.backend.Apart l h) :
    m.Rests t P k k' := by
  refine ⟨used.trans hc.used, counts, fun p hp => ?_⟩
  cases hl : t.part? p with
  | none => simp only [Tensor.values, hl]
  | some l =>
    rw [Tensor.values_part hl, Tensor.values_part hl]
    exact hc.alters.contents fun h hh => (apart p l hp hl h hh).congr used.later.buffers

theorem Altered.rests {A : Nat → Prop} {P : Part → Prop} (ha : k.Altered A k') (used : m.Used k)
    (away : ∀ p l, P p → t.part? p = some l → ∀ w, m.backend.window? l = some w →
      ¬A w.allocation) : m.Rests t P k k' := by
  obtain ⟨hused, hlists⟩ := used.altered ha
  refine ⟨hused, by rw [hlists], fun p hp => ?_⟩
  cases hl : t.part? p with
  | none => simp only [Tensor.values, hl]
  | some l =>
    rw [Tensor.values_part hl, Tensor.values_part hl]
    refine ha.contents fun w hw => away p l hp hl w ?_
    rwa [← Backend.window?_congr used.later.buffers]

theorem Arranged.cleared_allocation {auxiliary : Nat} {allocation : Nat → Side → Nat}
    (ha : Arranged m auxiliary allocation) {l : BufferId} (hl : m.Cleared l) :
    ∃ j u side, m.tensors[j]? = some u ∧ u.Lives side ∧
      (side = .forward → u.kind = .recurrent) ∧
      ∀ v, m.backend.window? l = some v → v.allocation = allocation j side := by
  obtain ⟨j, u, side, hu, hside, hl⟩ := hl
  have hlives : u.Lives side := by
    obtain ⟨rfl, hk⟩ | ⟨rfl, -⟩ := hside
    · intro _
      cases hkind : u.kind <;> simp_all [TensorKind.hasBackward]
    · exact u.lives_forward
  refine ⟨j, u, side, hu, hlives, fun hforward => ?_, fun v hv => ?_⟩
  · obtain ⟨rfl, -⟩ | ⟨-, hk⟩ := hside
    · cases hforward
    · exact hk
  · obtain hbase | hslot := hl
    · obtain ⟨floor, hlayout⟩ := ha.layout
      have hstored := hlayout.stored j u (Array.getElem?_eq_some_iff.mp hu).1 hu
      obtain ⟨base, whole, hbase', hwhole, hallocation, -⟩ := (hstored.occupies side hlives).base
      rw [hbase, Option.some.injEq] at hbase'
      subst hbase'
      simp only [Backend.window?, hwhole, Option.map_some, Option.some.injEq] at hv
      rw [← hv, ← hallocation]
    · exact ha.slot_allocation hslot hv

section

variable (hn : Outline b n) (h : Compiled n m batch)
  (hd : m.Divided alignment n.auxiliaryCount) (ht : m.tensors[i]? = some t)
  (kind : t.kind = .parameter) (used : m.Used k)

include hn h hd ht kind used

theorem Compiled.run_rests (keeps : m.KeepsParameters) {pass : Pass} (hpass : pass ≠ .update) :
    m.Rests t (fun p => ∀ s, p ≠ .slot .backward s) k (Call.after (run pass) k) := by
  obtain ⟨hconfined, hlists⟩ := h.run_confined hn used pass
  refine hconfined.rests used (hlists .update fun he => absurd he hpass) fun p l hp hl r hr => ?_
  cases pass with
  | forward =>
    obtain ⟨node, hnode, ⟨u, j, hu, hslot⟩ | ⟨-, u, hu, hkind, -⟩⟩ := hr
    · refine hd.apart ht hl hu hslot fun heq => ?_
      cases heq
      rw [ht, Option.some.injEq] at hu
      subst hu
      exact keeps node hnode t ht kind
    · exact absurd hkind (keeps node hnode u hu)
  | backward =>
    obtain ⟨node, -, x, -, u, j, hu, hslot⟩ | ⟨j, ⟨u, hu, hkind⟩, u', s, hu', hslot⟩ := hr
    · refine hd.apart ht hl hu hslot fun heq => ?_
      cases heq
      exact hp j rfl
    · refine hd.apart ht hl hu' hslot fun heq => ?_
      cases heq
      rw [ht, Option.some.injEq] at hu
      subst hu
      rw [kind] at hkind
      cases hkind
  | update => exact absurd rfl hpass

theorem Compiled.clear_rests (ok : clearBuffers k = .ok ⟨⟩ k') :
    m.Rests t (fun p => ∀ s, p ≠ .slot .backward s) k k' := by
  obtain ⟨allocation, ha⟩ := h.arranged
  obtain ⟨k₁, hok, hconfined, hlists, -⟩ := h.clear_confined hn hd used
  rw [ok, EStateM.Result.ok.injEq] at hok
  obtain ⟨-, rfl⟩ := hok
  refine hconfined.rests used (by rw [hlists]) fun p l hp hl r hr w v hw hv => .inl ?_
  obtain ⟨j, u, side, hu, hlives, hforward, hallocation⟩ := ha.cleared_allocation hr
  rw [hallocation v hv]
  refine ha.part_apart ht hl hw hu hlives ?_
  rintro s rfl rfl
  cases side with
  | forward =>
    rw [ht, Option.some.injEq] at hu
    subst hu
    rw [hforward rfl] at kind
    cases kind
  | backward => exact hp s rfl

omit hn hd kind in
theorem Compiled.write_rests (w : HostWrite α) :
    m.Rests t (fun p => ∀ s, p = .slot .forward s → i ≠ w.target.index) k (w.perform k) := by
  obtain ⟨allocation, ha⟩ := h.arranged
  have htensors : k.tensors = m.tensors := by rw [used.same]
  have haltered : k.Altered (fun a => ∃ u, m.tensors[w.target.index]? = some u ∧
      a = allocation w.target.index .forward) (w.perform k) := by
    refine keeps_perform w (fun u hu j l hl v hv => ?_) ⟨rfl, .refl _ _⟩
    rw [htensors] at hu
    rw [Backend.window?_congr used.later.buffers] at hv
    exact ⟨u, hu, ha.forwardSlot hu hl hv⟩
  refine haltered.rests used fun p l hp hl v hv => ?_
  rintro ⟨u, hu, heq⟩
  exact ha.part_apart ht hl hv hu u.lives_forward hp heq

omit hn hd kind in
theorem Compiled.writeGradient_rests (id : TensorId) (timestep : Nat) (data : Array α) :
    m.Rests t (fun p => ∀ s, p ≠ .slot .backward s) k
      (Call.after (writeGradient id timestep data) k) := by
  obtain ⟨allocation, ha⟩ := h.arranged
  have htensors : k.tensors = m.tensors := by rw [used.same]
  have haltered : k.Altered (fun a => ∃ u, m.tensors[id.index]? = some u ∧ u.Lives .backward ∧
      a = allocation id.index .backward) (Call.after (writeGradient id timestep data) k) := by
    refine (keeps_writeGradient id timestep data (fun u hu l hl v hv => ?_) k ⟨rfl, .refl _ _⟩).1
    rw [htensors] at hu
    rw [Backend.window?_congr used.later.buffers] at hv
    obtain ⟨j, hpart⟩ := Tensor.backwardBuffer_part (c := u.cursor) hl
    have hlives : u.Lives .backward := by
      intro _
      by_contra hno
      rw [Tensor.backwardBuffer, if_neg hno] at hl
      cases hl
    exact ⟨u, hu, hlives, ha.slot_allocation ⟨u, j, hu, hpart⟩ hv⟩
  refine haltered.rests used fun p l hp hl v hv => ?_
  rintro ⟨u, hu, hlives, heq⟩
  exact ha.part_apart ht hl hv hu hlives (fun s hs => absurd hs (hp s)) heq

/-- Between updates, weights stay unless the host gives others, and auxiliary buffers stay. -/
theorem Compiled.use_rests (keeps : m.KeepsParameters) {u : Use α} (hu : u.updates = false)
    (ok : u.call k = .ok ⟨⟩ k') : m.Rests t (u.spares i) k k' := by
  have mono : ∀ {P : Part → Prop}, (∀ p, u.spares i p → P p) → m.Rests t P k k' →
      m.Rests t (u.spares i) k k' := fun hP hr => ⟨hr.used, hr.counts, fun p hp => hr.values p (hP p hp)⟩
  have hbackward : ∀ p, u.spares i p → ∀ s, p ≠ .slot .backward s := by
    rintro p hp s rfl
    exact hp
  have hread : ∀ {β : Type} (x : Call α β), Call.Keeps (· = k) x (fun _ => True) →
      discard x k = .ok ⟨⟩ k' → k' = k := by
    intro β x hx hok
    rw [Call.discard_eq, Call.bind_ok_iff] at hok
    obtain ⟨y, k₁, hx', hpure⟩ := hok
    obtain ⟨-, rfl⟩ := Call.pure_ok_iff.mp hpure
    have hafter := (hx k rfl).1
    rwa [Call.after_of_ok hx'] at hafter
  have hrefl : k' = k → m.Rests t (u.spares i) k k' := by
    rintro rfl
    exact ⟨used, rfl, fun _ _ => rfl⟩
  cases u with
  | pass p =>
    have hp : p ≠ .update := by
      rintro rfl
      cases hu
    have hafter : Call.after (run p) k = k' := Call.after_of_ok ok
    have hrests := h.run_rests hn hd ht kind used keeps hp
    rw [hafter] at hrests
    exact mono hbackward hrests
  | clearBuffers => exact mono hbackward (h.clear_rests hn hd ht kind used ok)
  | batchDone => cases hu
  | readTensor id timestep => exact hrefl (hread _ (keeps_readTensor id timestep) ok)
  | readGradient id timestep => exact hrefl (hread _ (keeps_readGradient id timestep) ok)
  | readAuxiliary id index => exact hrefl (hread _ (keeps_readAuxiliary id index) ok)
  | writeTensor id timestep data =>
    have hafter : (HostWrite.tensor id timestep data).perform k = k' := Call.after_of_ok ok
    have hrests := h.write_rests ht used (.tensor id timestep data)
    rw [hafter] at hrests
    refine mono (fun p hp s hs heq => ?_) hrests
    subst hs heq
    exact hp rfl
  | writeSequence id data steps =>
    have hafter : (HostWrite.sequence id data steps).perform k = k' := Call.after_of_ok ok
    have hrests := h.write_rests ht used (.sequence id data steps)
    rw [hafter] at hrests
    refine mono (fun p hp s hs heq => ?_) hrests
    subst hs heq
    exact hp rfl
  | writeGradient id timestep data =>
    have hafter : Call.after (Network.writeGradient id timestep data) k = k' :=
      Call.after_of_ok ok
    have hrests := h.writeGradient_rests ht used id timestep data
    rw [hafter] at hrests
    exact mono hbackward hrests

end

/-! ### Over a course -/

/-- A parameter of `n` entries where its rule has led it: for each entry one step from the first
weight and zero moments for each gradient that was found. -/
structure Descended (n : Nat) (t : Tensor) (b : Backend α) (o : Optimizer α) (h : History α) :
    Prop where
  learns : ∀ e < n, ∃ w gs, h.weights[e]? = some w ∧
    List.Forall₂ (fun gradient g => gradient[e]? = some g) h.gradients gs ∧
    t.Learns b o.auxiliaryCount e (o.descend 1 gs ⟨w, 0, 0⟩)
  rest : ∀ e, n ≤ e → (t.values b (.slot .forward 0))[e]? = h.weights[e]?

/-- A network in use whose updates have been counted, with a parameter that has followed its rule,
as far as the kernel is told of its entries. -/
structure Follows (m : Network α) (t : Tensor) (o : Optimizer α) (k : Network α) (h : History α) :
    Prop where
  used : m.Used k
  counts : (k.backend.dispatches.get .update).toList =
    (m.backend.dispatches.get .update).toList.map Dispatch.afterRun^[h.gradients.length]
  descended : Descended (told t.shape.elements) t k.backend o h

theorem Used.held_eq (used : m.Used k) (ht : m.tensors[i]? = some t) (p : Part) :
    k.held i p = t.values k.backend p := by
  have htensors : k.tensors = m.tensors := by rw [used.same]
  simp only [Network.held, htensors, ht]

section

variable (hn : Outline b n) (h : Compiled n m batch)
  (hd : m.Divided alignment n.auxiliaryCount) (ho : n.optimizer = some o)
  (ht : m.tensors[i]? = some t) (kind : t.kind = .parameter)

include hn h ht

theorem Compiled.size_weights (used : m.Used k) :
    (t.values k.backend (.slot .forward 0)).size = t.shape.elements := by
  obtain ⟨allocation, ha⟩ := h.arranged
  obtain ⟨-, stride, -, hslots⟩ := ha.side ht t.lives_forward
  obtain ⟨hslot, hresolves, -⟩ := hslots 0 (Tensor.slotCount_pos (h.expanded.sequence_pos hn ht))
  rw [Tensor.values_part (p := .slot .forward 0) hslot,
    Backend.size_contents_congr hresolves used.later.buffers used.later.sizes]
  exact ha.size_contents (p := ⟨i, .forward, 0⟩) (.refl _) ht t.lives_forward
    (Tensor.slotCount_pos (h.expanded.sequence_pos hn ht))

include hd ho kind

theorem Compiled.start_follows : m.Follows t o m ⟨m.held i (.slot .forward 0), []⟩ := by
  obtain ⟨allocation, ha⟩ := h.arranged
  refine ⟨.refl m, by simp, fun e he => ?_, fun e he => by rw [(Used.refl m).held_eq ht]⟩
  have he' : e < t.shape.elements := he.trans_le (told_le _)
  have hlt : e < (t.values m.backend (.slot .forward 0)).size := by
    rwa [h.size_weights hn ht (.refl m)]
  rw [(Used.refl m).held_eq ht]
  refine ⟨_, [], Array.getElem?_eq_getElem hlt, .nil, Array.getElem?_eq_getElem hlt, fun j hj => ?_⟩
  have hsize : t.auxiliary.size = o.auxiliaryCount := by
    rw [hd.auxiliary i t ht, if_pos kind, auxiliaryCount, ho]
    rfl
  have hget : t.auxiliary[j]? = some t.auxiliary[j] := Array.getElem?_eq_getElem (hsize ▸ hj)
  obtain ⟨floor, hlayout⟩ := ha.layout
  obtain ⟨hresolves, w, hw, hcount, -⟩ :=
    (hlayout.stored i t (Array.getElem?_eq_some_iff.mp ht).1 ht).auxiliary j _ hget
  have hblank := ha.blank_auxiliary i t _ w ht (Array.mem_of_getElem? hget) hw
  rw [Tensor.values_part (p := .auxiliary j) hget, hblank.contents hresolves hw,
    Array.getElem?_replicate, if_pos (by omega)]
  cases j <;> rfl

theorem Compiled.update_follows {past : History α} (hf : m.Follows t o k past)
    (short : past.gradients.length + 1 < 2 ^ 31) (ok : run .update k = .ok ⟨⟩ k') :
    m.Follows t o k'
      { past with gradients := past.gradients ++ [k.held i (.slot .backward 0)] } := by
  have hused := hf.used.run h.stage .update
  rw [Call.after_of_ok ok] at hused
  obtain ⟨-, c, hrun, rfl⟩ := run_ok_iff.mp ok
  obtain ⟨hsteps, hcounts⟩ :=
    h.update_steps hd ho ht kind (h.expanded.sequence_pos hn ht) hf.used hf.counts short hrun
  refine ⟨hused, by rw [List.length_append]; exact hcounts, fun e he => ?_, fun e he => ?_⟩
  · obtain ⟨w, gs, hw, hgs, hlearns⟩ := hf.descended.learns e he
    obtain ⟨g, hg, hnext⟩ := hsteps.learns e he _ hlearns
    refine ⟨w, gs ++ [g], hw, List.rel_append hgs (.cons ?_ .nil), ?_⟩
    · rwa [hf.used.held_eq ht]
    · rwa [Optimizer.descend_append, ← hgs.length_eq, Nat.add_comm 1]
  · exact (hsteps.rest e he).trans (hf.descended.rest e he)

omit hd ho kind in
theorem Compiled.rests_follows {past : History α} {P : Part → Prop} (hf : m.Follows t o k past)
    (hr : m.Rests t P k k') (hauxiliary : ∀ j, P (.auxiliary j))
    (hweights : past.gradients ≠ [] → P (.slot .forward 0)) :
    m.Follows t o k' (if past.gradients.isEmpty then
      { past with weights := k'.held i (.slot .forward 0) } else past) := by
  have hcounts := hr.counts ▸ hf.counts
  by_cases hpast : past.gradients = []
  · rw [if_pos (by simp [hpast]), hr.used.held_eq ht]
    refine ⟨hr.used, hcounts, fun e he => ?_, fun e he => rfl⟩
    have hlt : e < (t.values k'.backend (.slot .forward 0)).size := by
      rw [h.size_weights hn ht hr.used]
      exact he.trans_le (told_le _)
    obtain ⟨w, gs, hw, hgs, hlearns⟩ := hf.descended.learns e he
    rw [hpast, List.forall₂_nil_left_iff] at hgs
    subst hgs
    refine ⟨_, [], Array.getElem?_eq_getElem hlt, by simp [hpast],
      Array.getElem?_eq_getElem hlt, fun j hj => ?_⟩
    rw [hr.values _ (hauxiliary j), hlearns.moment j hj]
    cases j <;> rfl
  · rw [if_neg (by simpa using hpast)]
    have hw := hr.values _ (hweights hpast)
    refine ⟨hr.used, hcounts, fun e he => ?_, fun e he => ?_⟩
    · obtain ⟨w, gs, hw₀, hgs, hlearns⟩ := hf.descended.learns e he
      refine ⟨w, gs, hw₀, hgs, ?_, fun j hj => ?_⟩
      · rw [hw]
        exact hlearns.weight
      · rw [hr.values _ (hauxiliary j)]
        exact hlearns.moment j hj
    · rw [hw]
      exact hf.descended.rest e he

/-- Along a course, by induction on its uses: updates take the next step, and the other uses leave
the parameter alone. -/
theorem Compiled.course_follows (keeps : m.KeepsParameters) {past : History α}
    (course : Course m i k past) (short : past.gradients.length < 2 ^ 31) :
    m.Follows t o k past := by
  induction course with
  | start => exact h.start_follows hn hd ho ht kind
  | @use k k' past u course early ok ih =>
    cases hu : u.updates with
    | true =>
      rw [History.next, if_pos hu] at short ⊢
      simp only [List.length_append, List.length_singleton] at short
      have hf := ih (by omega)
      cases u with
      | pass p =>
        obtain rfl : p = .update := by cases p <;> simp_all [Use.updates]
        exact h.update_follows hn hd ho ht kind hf short ok
      | batchDone =>
        obtain ⟨⟨⟩, k₁, hupdate, hclear⟩ := Call.bind_ok_iff.mp ok
        have hf₁ := h.update_follows hn hd ho ht kind hf short hupdate
        have hrests := h.clear_rests hn hd ht kind hf₁.used hclear
        have hf₂ := h.rests_follows hn ht hf₁ hrests (by simp) (by simp)
        rwa [if_neg (by simp)] at hf₂
      | clearBuffers | readTensor | readGradient | readAuxiliary | writeTensor | writeSequence
      | writeGradient => cases hu
    | false =>
      have hlength : (past.next i u k k').gradients = past.gradients := by
        unfold History.next
        rw [if_neg (by simp [hu])]
        split <;> rfl
      rw [hlength] at short
      rw [History.next, if_neg (by simp [hu])]
      have hf := ih short
      exact h.rests_follows hn ht hf (h.use_rests hn hd ht kind hf.used keeps hu ok)
        (fun _ => trivial) fun hne hgives => hne (early hgives)

end

/-- Over any course of training, each parameter is moved by exactly one dispatch of the update pass,
and follows its rule: after `k` updates, its weights and moments are those that `k` steps of the
recurrence make of the weights before the first update and of zero moments, where step `t` takes the
gradient that update `t` has found. -/
theorem Assembled.course_descends {config : NetworkConfig} (idle : b.Idle)
    (built : Assembled (Network.new b config) n) (compiled : compile batch n = .ok ⟨⟩ m)
    (optimizer : n.optimizer = some o) (keeps : m.KeepsParameters) (ht : m.tensors[i]? = some t)
    (kind : t.kind = .parameter) (tellable : t.shape.elements ≤ 2147483647) {past : History α}
    (course : Course m i k past) (short : past.gradients.length < 2 ^ 31) :
    (∃ weights, t.part? (.slot .forward 0) = some weights ∧
      ∃! position : Nat, ∃ d, (m.backend.dispatches.get .update)[position]? = some d ∧
        m.backend.Writes d weights) ∧
    Descended t.shape.elements t k.backend o past := by
  have hn := built.outline
  have idle' : Backend.Idle { b with validation := config.validate } :=
    ⟨idle.dispatches, idle.sound⟩
  have hcompiled := compile_ok hn idle' compiled
  have hdivided := compile_divided hn idle' compiled
  have hfollows := hcompiled.course_follows hn hdivided optimizer ht kind keeps course short
  refine ⟨hcompiled.update_unique optimizer ht kind
    (hcompiled.expanded.sequence_pos hn ht), ?_⟩
  rw [← told_eq tellable]
  exact hfollows.descended

theorem Course.step {past : History α} (course : Course m i k past) (u : Use α)
    (early : u.gives ⟨i⟩ → past.gradients = []) (ok : Call.isOk (u.call k) = true) :
    Course m i (Call.after u.call k) (past.next i u k (Call.after u.call k)) :=
  course.use u early (Call.ok_of_isOk ok)

set_option maxRecDepth 100000 in
/-- Weights and a gradient from the host, and two updates, of which the second finds no gradient. -/
theorem partedNetwork_descends : ∃ m k past t, compile 3 partedNetwork = .ok ⟨⟩ m ∧
    Course m 1 k past ∧ past.gradients.length = 2 ∧ m.tensors[1]? = some t ∧
    t.kind = .parameter ∧
    Descended t.shape.elements t k.backend (.adamAt Optimizer.defaultAlpha) past := by
  have hm : compile 3 partedNetwork = .ok ⟨⟩ (Call.after (compile 3) partedNetwork) :=
    Call.ok_of_isOk (by decide +kernel)
  have hkeeps : (Call.after (compile 3) partedNetwork).KeepsParameters := by decide +kernel
  have idle : Backend.Idle { Backend.host (α := Binary32) with device := { alignment := 12 } } :=
    ⟨rfl, fun i compiled hi => by simp [Backend.host] at hi⟩
  have hparameter : (Call.after (compile 3) partedNetwork).tensors[1]?.any
      fun t => t.kind = .parameter ∧ t.shape.elements ≤ 2147483647 := by
    decide +kernel
  obtain ⟨t, ht, hkind⟩ := (Option.any_eq_true _ _).mp hparameter
  obtain ⟨hkind, htellable⟩ := of_decide_eq_true hkind
  have hstart : Course (Call.after (compile 3) partedNetwork) 1 _ _ := .start
  have hweights := hstart.step (.writeTensor ⟨1⟩ 0 #[1, 0.5]) (fun _ => rfl) (by decide +kernel)
  have hgradient := hweights.step (.writeGradient ⟨1⟩ 0 #[0.25, 1]) False.elim (by decide +kernel)
  have hfirst := hgradient.step .batchDone False.elim (by decide +kernel)
  have hsecond := hfirst.step (.pass .update) False.elim (by decide +kernel)
  have hdescended := Assembled.course_descends idle (Assembled.start.draft _) hm rfl hkeeps ht
    hkind htellable hsecond (by decide)
  exact ⟨_, _, _, t, hm, hsecond, rfl, ht, hkind, hdescended.2⟩

/-! ### A parameter that is too long -/

theorem Lowered.held_slot (h : Lowered m) (hk : m.SameGraphAs k) {p : Place} (hp : m.Has p) :
    k.held p.tensor (.slot p.side p.slot) = m.values k.backend p := by
  obtain ⟨allocation, ha⟩ := h.arranged
  obtain ⟨t, ht, hl, hlt⟩ := hp
  obtain ⟨-, stride, -, hslots⟩ := ha.side ht hl
  have htensors : k.tensors = m.tensors := by rw [hk.same]
  rw [held, htensors, ht]
  exact Tensor.values_part (hslots _ hlt).1

theorem Lowered.parameter_filled (h : Lowered m) (stage : m.stage = .compiled)
    (ht : m.tensors[i]? = some t) (kind : t.kind = .parameter) {weights gradient : Array α}
    (hw : weights.size = t.shape.elements) (hg : gradient.size = t.shape.elements) :
    ∃ k, m.Used k ∧ Course m i k ⟨weights, []⟩ ∧ k.held i (.slot .backward 0) = gradient := by
  obtain ⟨allocation, ha⟩ := h.arranged
  have hslot : 0 < t.slotCount := Tensor.slotCount_pos (h.sequence _ t ht).1
  have hlives : t.Lives .backward := fun _ => by rw [kind]; rfl
  have hplace : m.Has ⟨i, .forward, 0⟩ := ⟨t, ht, t.lives_forward, hslot⟩
  have hplace' : m.Has ⟨i, .backward, 0⟩ := ⟨t, ht, hlives, hslot⟩
  have hsame := SameGraphAs.refl m
  obtain ⟨hsame₁, hself₁, -⟩ := h.withContents hsame hplace
    (hw.trans (h.size_values hsame.layout hplace ht).symm)
  obtain ⟨hsame₂, hself₂, hother₂⟩ := h.withContents hsame₁ hplace'
    (hg.trans (h.size_values hsame₁.layout hplace' ht).symm)
  have hwrite : writeTensor ⟨i⟩ 0 weights m = .ok ⟨⟩ (m.withContents _ weights) :=
    ha.writeTensor_ok (hsame.shares stage) ht hslot (fun _ => rfl) hw
  have hused := Used.withContents m (m.handle ⟨i, .forward, 0⟩) weights
  generalize m.withContents (m.handle ⟨i, .forward, 0⟩) weights = k₁ at *
  have hwrite' : writeGradient ⟨i⟩ 0 gradient k₁ = .ok ⟨⟩ (k₁.withContents _ gradient) :=
    ha.writeGradient_ok (hsame₁.shares stage) ht hlives hslot hg
  have hused' := hused.trans (Used.withContents k₁ (m.handle ⟨i, .backward, 0⟩) gradient)
  generalize k₁.withContents (m.handle ⟨i, .backward, 0⟩) gradient = k₂ at *
  have hheld : k₂.held i (.slot .forward 0) = weights :=
    (h.held_slot hsame₂ hplace).trans ((hother₂ _ hplace (by simp)).trans hself₁)
  have hstart : Course m i m ⟨m.held i (.slot .forward 0), []⟩ := .start
  have hcourse := (hstart.use (.writeTensor ⟨i⟩ 0 weights) (fun _ => rfl) hwrite).use
    (.writeGradient ⟨i⟩ 0 gradient) False.elim hwrite'
  refine ⟨k₂, hused', ?_, (h.held_slot hsame₂ hplace').trans hself₂⟩
  simpa [History.next, Use.updates, hheld] using hcourse

/-- The last entry of a parameter that is longer than a kernel can be told does not follow the
rule. -/
theorem Compiled.overlong_stays {m : Network Binary32} {n : Network Binary32}
    {b : Backend Binary32} {t : Tensor} (hn : Sketch b n) (h : Compiled n m batch)
    (hd : m.Divided alignment n.auxiliaryCount) (sized : Sized m)
    (ho : n.optimizer = some (.gradientDescent 1)) (ht : m.tensors[i]? = some t)
    (kind : t.kind = .parameter) (keeps : m.KeepsParameters)
    (long : 2147483647 < t.shape.elements) :
    ∃ k past, Course m i k past ∧ past.gradients.length = 1 ∧
      ¬Descended t.shape.elements t k.backend (.gradientDescent 1) past := by
  have hones : (Array.replicate t.shape.elements (1 : Binary32)).size = t.shape.elements :=
    Array.size_replicate
  have hone : (Array.replicate t.shape.elements (1 : Binary32))[2147483647]? = some 1 := by
    rw [Array.getElem?_replicate, if_pos long]
  obtain ⟨k₁, used, hcourse, hheld⟩ := (h.lowered hn).parameter_filled h.stage ht kind hones hones
  obtain ⟨k, hupdate, -⟩ := h.run_succeeds hn sized used .update
  have hcourse' := hcourse.use (.pass .update) False.elim hupdate
  simp only [History.next, Use.updates, if_true, List.nil_append, hheld] at hcourse'
  have hfollows := h.course_follows hn.outline hd ho ht kind keeps hcourse'
    (show 1 < 2 ^ 31 by decide)
  have hstays := hfollows.descended.rest 2147483647 (Nat.min_le_right ..)
  refine ⟨k, _, hcourse', rfl, fun hdescended => ?_⟩
  obtain ⟨w, gs, hw, hgs, hlearns⟩ := hdescended.learns 2147483647 long
  obtain ⟨g, rest, hg, hnil, rfl⟩ := List.forall₂_cons_left_iff.mp hgs
  obtain rfl := List.forall₂_nil_left_iff.mp hnil
  have hweight := hlearns.weight
  rw [hstays, hone] at hweight
  rw [hone] at hw hg
  cases hw
  cases hg
  exact absurd hweight (by decide)

/-- A parameter of one entry more than a kernel can be told. -/
def overlongNetwork : Network Binary32 :=
  (Network.new Backend.host {}).draft
    [.createParameter ⟨2147483648, 1, 1, 1⟩ 1, .setOptimizer (.gradientDescent 1)]

theorem overlongNetwork_stays : ∃ m k past t, compile 1 overlongNetwork = .ok ⟨⟩ m ∧
    m.KeepsParameters ∧ Course m 0 k past ∧ past.gradients.length = 1 ∧ m.tensors[0]? = some t ∧
    t.kind = .parameter ∧
    ¬Descended t.shape.elements t k.backend (.gradientDescent 1) past := by
  have hbuilt : Built (fun _ => True) (Network.new Backend.host {}) overlongNetwork :=
    Built.start.draft fun c _ => by cases c <;> trivial
  have hempty : overlongNetwork.nodes = #[] := by decide +kernel
  have hsized : ∀ {m}, Expanded overlongNetwork m 1 → Sized m := fun h =>
    hbuilt.sized (by decide +kernel) h one_pos
      ⟨fun node hn => by simp [hempty] at hn, fun node hn => by simp [hempty] at hn⟩
  have hstorable : overlongNetwork.Storable (max 1 1) := by decide +kernel
  have hdrawn : drawAll overlongNetwork.initials overlongNetwork.generator =
      .ok ([], overlongNetwork.generator) := rfl
  obtain ⟨m, hm⟩ := hbuilt.sketch.compile_succeeds Backend.host_idle Backend.host_registered
    hstorable hsized hdrawn
  have hcompiled := compile_ok hbuilt.sketch.outline Backend.host_idle hm
  have hdivided := compile_divided hbuilt.sketch.outline Backend.host_idle hm
  have hparameter : overlongNetwork.tensors[0]?.any
      fun t => t.kind = .parameter ∧ t.shape.elements = 2147483648 := by decide +kernel
  obtain ⟨u, hu, hkind⟩ := (Option.any_eq_true _ _).mp hparameter
  obtain ⟨hkind, hshape⟩ := of_decide_eq_true hkind
  obtain ⟨t, ht, hsame⟩ := hcompiled.tensor 0 u hu
  rw [batchTensor_parameter hkind] at hsame
  have hkind' : t.kind = .parameter := by rw [hsame, ← hkind]
  have hshape' : t.shape.elements = 2147483648 := by rw [hsame, ← hshape]
  have hkeeps : m.KeepsParameters := by
    have hnodes : m.nodes = #[] := by
      rw [← Array.size_eq_zero_iff, hcompiled.size_nodes, hempty]
      rfl
    intro node hn
    simp [hnodes] at hn
  obtain ⟨k, past, hcourse, hlength, hnot⟩ := hcompiled.overlong_stays hbuilt.sketch hdivided
    (hsized hcompiled.expanded) rfl ht hkind' hkeeps (by omega)
  exact ⟨m, k, past, t, hm, hkeeps, hcourse, hlength, ht, hkind', hnot⟩

end Network

end Backprop
