import Mathlib
import Backprop.Proofs.Lockstep
import Backprop.Proofs.Network.Parts

/-! Networks that the same calls build on two backends. They have the same graph, and compiled for
the same batch they have the same tensors, each with storage of its own. -/

namespace Backprop.Network

variable {α β γ : Type}

/-- The networks differ at most in their backends, in what initializers draw from, and in what is
counted of their runs. -/
def Twin (n n' : Network α) : Prop :=
  ∃ backend config generator runs, n' = { n with backend, config, generator, runs }

/-- A call that does not look at what twins may differ in, and leaves twins. -/
def Blind (x : Call α β) : Prop := ∀ n n', Twin n n' → Call.Alike Twin (x n) (x n')

namespace Blind

variable {x : Call α β}

theorem bind {f : β → Call α γ} (hx : Blind x) (hf : ∀ b, Blind (f b)) : Blind (x >>= f) :=
  fun n n' h => (hx n n' h).bind fun b => hf b

theorem pure (b : β) : Blind (Pure.pure b : Call α β) := fun _ _ h => .ok h

theorem throw (e : Error) : Blind (MonadExcept.throw e : Call α β) := fun _ _ h => .error h

theorem ofExcept (e : Except Error β) : Blind (MonadExcept.ofExcept e : Call α β) := by
  cases e with
  | ok b => exact pure b
  | error e => exact throw e

theorem throw_ite {p : Prop} [Decidable p] {e : Error} {f : PUnit → Call α β} (hx : Blind x) :
    Blind (if p then (MonadExcept.throw e : Call α PUnit) >>= f else x) := by
  by_cases hp : p
  · rw [if_pos hp]
    exact fun n n' h => .error h
  · rwa [if_neg hp]

theorem forM {f : β → Call α PUnit} {l : List β} (h : ∀ b ∈ l, Blind (f b)) : Blind (l.forM f) := by
  induction l with
  | nil => exact pure _
  | cons b l ih =>
    rw [List.forM_eq_forM, List.forM_cons]
    exact (h b List.mem_cons_self).bind fun _ => ih fun b hb => h b (List.mem_cons_of_mem _ hb)

theorem get_bind {f : Network α → Call α β} (h : ∀ n n', Twin n n' → f n' = f n)
    (hf : ∀ n, Blind (f n)) : Blind (MonadState.get >>= f) := by
  intro n n' hn
  have hboth : Call.Alike Twin (f n n) (f n' n') := h n n' hn ▸ hf n n n' hn
  exact hboth

theorem modify {f : Network α → Network α} (h : ∀ n n', Twin n n' → Twin (f n) (f n')) :
    Blind (modifyGet fun n => (⟨⟩, f n) : Call α PUnit) := fun n n' hn => .ok (h n n' hn)

end Blind

theorem modifyTensor_blind (id : TensorId) (f : Tensor → Tensor) :
    Blind (modifyTensor id f : Call α Unit) := by
  refine .modify ?_
  rintro n _ ⟨b, c, g, r, rfl⟩
  exact ⟨b, c, g, r, rfl⟩

theorem requireBuilding_blind : Blind (requireBuilding : Call α Unit) := by
  refine .get_bind ?_ fun n => ?_
  · rintro n _ ⟨b, c, g, r, rfl⟩
    rfl
  · split
    · exact .throw _
    · exact .pure _

theorem create_blind (kind : TensorKind) (shape : Shape) (sequence : Nat) :
    Blind (create kind shape sequence : Call α TensorId) := by
  refine requireBuilding_blind.bind fun _ => .throw_ite ?_
  rintro n _ ⟨b, c, g, r, rfl⟩
  exact .ok ⟨b, c, g, r, rfl⟩

theorem nameTensor_blind (id : TensorId) (name : String) :
    Blind (nameTensor id name : Call α Unit) := by
  refine .throw_ite (.get_bind ?_ fun n => ?_)
  · rintro n _ ⟨b, c, g, r, rfl⟩
    rfl
  · rw [Call.discard_eq]
    exact ((Blind.ofExcept _).bind fun _ => .pure _).bind fun _ => modifyTensor_blind id _

theorem link_blind (op : Operator α) (inputs : List TensorId) (output : TensorId)
    (timeOffset : Nat) : Blind (link op inputs output timeOffset) := by
  refine .get_bind ?_ fun n => ?_
  · rintro n _ ⟨b, c, g, r, rfl⟩
    rfl
  · refine (Blind.forM fun input _ => modifyTensor_blind _ _).bind fun _ =>
      (modifyTensor_blind _ _).bind fun _ => .modify ?_
    rintro n _ ⟨b, c, g, r, rfl⟩
    exact ⟨b, c, g, r, rfl⟩

theorem addOperator_blind (op : Operator α) (inputs : List TensorId) (timeOffset : Nat) :
    Blind (addOperator op inputs timeOffset) := by
  refine requireBuilding_blind.bind fun _ => .get_bind ?_ fun n => ?_
  · rintro n _ ⟨b, c, g, r, rfl⟩
    rfl
  · exact (Blind.ofExcept _).bind fun shape => (Blind.ofExcept _).bind fun bound =>
      (create_blind _ _ _).bind fun output => (link_blind _ _ _ _).bind fun _ => .pure _

theorem addOperatorInto_blind (op : Operator α) (inputs : List TensorId) (result : TensorId)
    (timeOffset : Nat) : Blind (addOperatorInto op inputs result timeOffset) := by
  refine requireBuilding_blind.bind fun _ => .get_bind ?_ fun n => ?_
  · rintro n _ ⟨b, c, g, r, rfl⟩
    rfl
  · exact (Blind.ofExcept _).bind fun shape => (Blind.ofExcept _).bind fun target =>
      .throw_ite ((link_blind _ _ _ _).bind fun _ => .pure _)

theorem setOptimizer_blind (o : Optimizer α) : Blind (setOptimizer o) := by
  refine requireBuilding_blind.bind fun _ => .modify ?_
  rintro n _ ⟨b, c, g, r, rfl⟩
  exact ⟨b, c, g, r, rfl⟩

theorem initWeight_blind (target : TensorId) (init : Initializer) :
    Blind (initWeight target init : Call α Unit) := by
  refine requireBuilding_blind.bind fun _ => .get_bind ?_ fun n => ?_
  · rintro n _ ⟨b, c, g, r, rfl⟩
    rfl
  · refine (Blind.ofExcept _).bind fun t => .throw_ite (.modify ?_)
    rintro n _ ⟨b, c, g, r, rfl⟩
    exact ⟨b, c, g, r, rfl⟩

theorem applyBatch_blind (batch : Nat) : Blind (applyBatch batch : Call α Unit) := by
  rintro n _ ⟨b, c, g, r, rfl⟩
  refine Call.Alike.bind (x := MonadExcept.ofExcept _)
    (Blind.ofExcept _ n _ ⟨b, c, g, r, rfl⟩) fun _ _ _ _ => ?_
  exact .ok ⟨b, c, g, r, rfl⟩

theorem planScratch_blind : Blind (planScratch : Call α Unit) := by
  rintro n _ ⟨b, c, g, r, rfl⟩
  refine Call.Alike.bind (x := MonadExcept.ofExcept _)
    (Blind.ofExcept _ n _ ⟨b, c, g, r, rfl⟩) fun _ _ _ _ => ?_
  exact .ok ⟨b, c, g, r, rfl⟩

/-! ### The same calls -/

/-- What becomes of two networks by the same building calls. -/
inductive SameCalls (start start' : Network α) : Network α → Network α → Prop
  | start : SameCalls start start' start start'
  | call {n n' : Network α} (c : BuildingCall α) (h : SameCalls start start' n n') :
      SameCalls start start' (c.perform n) (c.perform n')
  | operatorInto {n n' : Network α} (op : Operator α) (inputs : List TensorId) (result : TensorId)
      (timeOffset : Nat) (h : SameCalls start start' n n') :
      SameCalls start start' (Call.after (addOperatorInto op inputs result timeOffset) n)
        (Call.after (addOperatorInto op inputs result timeOffset) n')

namespace SameCalls

variable {start start' n n' : Network α}

theorem left (h : SameCalls start start' n n') : Assembled start n := by
  induction h with
  | start => exact .start
  | call c _ ih => exact .call c ih
  | operatorInto op inputs result timeOffset _ ih => exact .operatorInto op inputs result timeOffset ih

theorem right (h : SameCalls start start' n n') : Assembled start' n' := by
  induction h with
  | start => exact .start
  | call c _ ih => exact .call c ih
  | operatorInto op inputs result timeOffset _ ih => exact .operatorInto op inputs result timeOffset ih

theorem draft (h : SameCalls start start' n n') (calls : List (BuildingCall α)) :
    SameCalls start start' (n.draft calls) (n'.draft calls) := by
  induction calls generalizing n n' with
  | nil => exact h
  | cons c calls ih => exact ih (.call c h)

end SameCalls

variable {n n' m m' : Network α}

theorem Twin.perform (h : Twin n n') (c : BuildingCall α) : Twin (c.perform n) (c.perform n') := by
  cases c with
  | createInput shape sequence => exact (create_blind .input shape sequence n n' h).after
  | createState shape sequence => exact (create_blind .recurrent shape sequence n n' h).after
  | createParameter shape sequence => exact (create_blind .parameter shape sequence n n' h).after
  | addOperator op inputs timeOffset => exact (addOperator_blind op inputs timeOffset n n' h).after
  | nameTensor id name => exact (nameTensor_blind id name n n' h).after
  | setOptimizer o => exact (setOptimizer_blind o n n' h).after
  | initWeight target init => exact (initWeight_blind target init n n' h).after

theorem SameCalls.twin {start start' : Network α} (h : SameCalls start start' n n')
    (hs : Twin start start') : Twin n n' := by
  induction h with
  | start => exact hs
  | call c _ ih => exact ih.perform c
  | operatorInto op inputs result timeOffset _ ih =>
    exact (addOperatorInto_blind op inputs result timeOffset _ _ ih).after

theorem Twin.new (b b' : Backend α) (config config' : NetworkConfig) :
    Twin (Network.new b config) (Network.new b' config') := ⟨_, _, _, _, rfl⟩

/-! ### Compilation -/

def unstored (n : Network α) : Array Tensor :=
  n.tensors.map fun t => { t with forward := {}, backward := {}, auxiliary := #[] }

theorem Instantiating.unstored [Zero α] {auxiliary count : Nat}
    (h : Instantiating n auxiliary count m) : m.unstored = n.unstored := by
  refine Array.ext_getElem? fun i => ?_
  simp only [Network.unstored, Array.getElem?_map]
  by_cases hi : i < n.tensors.size
  · obtain ⟨t', ht', hsame, -⟩ := h.tensor i _ (Array.getElem?_eq_getElem hi)
    rw [ht', Array.getElem?_eq_getElem hi, hsame]
    rfl
  · rw [Array.getElem?_eq_none (Nat.le_of_not_lt hi),
      Array.getElem?_eq_none (h.size ▸ Nat.le_of_not_lt hi)]

theorem Twin.compile_unstored [Scalar α] {b b' : Backend α} {batch : Nat} (h : Twin n n')
    (hn : Outline b n) (hn' : Outline b' n') (idle : b.Idle) (idle' : b'.Idle)
    (hm : compile batch n = .ok ⟨⟩ m) (hm' : compile batch n' = .ok ⟨⟩ m') :
    m'.unstored = m.unstored := by
  have hplanned : ∀ {b : Backend α} {n m : Network α}, Outline b n → b.Idle →
      compile batch n = .ok ⟨⟩ m → ∃ m₁ m₂, applyBatch (max batch 1) n = .ok ⟨⟩ m₁ ∧
        planScratch m₁ = .ok ⟨⟩ m₂ ∧ m.unstored = m₂.unstored := by
    intro b n m hn idle hm
    obtain ⟨m₁, m₂, m₃, h₁, h₂, hplan, h₃, hts, -, -⟩ := compile_planned hn idle hm
    have hinst := instantiateAll_ok (fun i t ht => (hplan.sound hn ht).sequence) h₃
    refine ⟨m₁, m₂, h₁, h₂, ?_⟩
    rw [← hinst.unstored, Network.unstored, hts]
    rfl
  obtain ⟨m₁, m₂, h₁, h₂, hu⟩ := hplanned hn idle hm
  obtain ⟨m₁', m₂', h₁', h₂', hu'⟩ := hplanned hn' idle' hm'
  have hbatch := (applyBatch_blind (max batch 1) n n' h).after
  rw [Call.after_of_ok h₁, Call.after_of_ok h₁'] at hbatch
  have hplan := (planScratch_blind m₁ m₁' hbatch).after
  rw [Call.after_of_ok h₂, Call.after_of_ok h₂'] at hplan
  obtain ⟨_, _, _, _, hsame⟩ := hplan
  rw [hu, hu', hsame]
  rfl

end Backprop.Network
