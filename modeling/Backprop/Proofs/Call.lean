import Mathlib
import Backprop.Network.Basic

/-! Calls that succeed: what each step of a call must have answered, and when a call
made of steps that succeed does. -/

namespace Backprop

variable {ε σ β γ : Type}

theorem Except.bind_ok_iff {x : Except ε β} {f : β → Except ε γ} {c : γ} :
    (x >>= f) = .ok c ↔ ∃ b, x = .ok b ∧ f b = .ok c := by
  cases x with
  | error e => simp [bind, Except.bind]
  | ok b => simp [bind, Except.bind]

theorem Except.map_ok_iff {x : Except ε β} {f : β → γ} {c : γ} :
    x.map f = .ok c ↔ ∃ b, x = .ok b ∧ f b = c := by
  cases x <;> simp [Except.map]

theorem Except.mapError_ok_iff {ε' : Type} {x : Except ε β} {f : ε → ε'} {b : β} :
    x.mapError f = .ok b ↔ x = .ok b := by
  cases x <;> simp [Except.mapError]

theorem Except.pure_ok_iff {b c : β} : (pure b : Except ε β) = .ok c ↔ b = c := by
  simp [pure, Except.pure]

theorem Except.throw_ok_iff {e : ε} {c : β} : (throw e : Except ε β) = .ok c ↔ False := by
  simp [throw, throwThe, MonadExceptOf.throw]

theorem Except.mapM_ok_iff {f : β → Except ε γ} {l : List β} {r : List γ} :
    l.mapM f = .ok r ↔ List.Forall₂ (fun b c => f b = .ok c) l r := by
  induction l generalizing r with
  | nil => simp [pure, Except.pure, eq_comm]
  | cons b l ih =>
    simp only [List.mapM_cons, Except.bind_ok_iff, Except.pure_ok_iff, ih]
    constructor
    · rintro ⟨c, hc, cs, hcs, rfl⟩
      exact .cons hc hcs
    · rintro (_ | ⟨hc, hcs⟩)
      exact ⟨_, hc, _, hcs, rfl⟩

theorem forall₂_getElem? {R : β → γ → Prop} {l : List β} {r : List γ} (h : List.Forall₂ R l r)
    {i : Nat} {b : β} (hi : l[i]? = some b) : ∃ c, r[i]? = some c ∧ R b c := by
  induction h generalizing i with
  | nil => simp at hi
  | cons hr _ ih =>
    cases i with
    | zero =>
      cases hi
      exact ⟨_, rfl, hr⟩
    | succ i => exact ih hi

theorem exists_forall₂ {R : β → γ → Prop} {l : List β} (h : ∀ x ∈ l, ∃ y, R x y) :
    ∃ r, List.Forall₂ R l r := by
  induction l with
  | nil => exact ⟨[], .nil⟩
  | cons x l ih =>
    obtain ⟨y, hy⟩ := h x List.mem_cons_self
    obtain ⟨r, hr⟩ := ih fun z hz => h z (List.mem_cons_of_mem _ hz)
    exact ⟨y :: r, .cons hy hr⟩

namespace Call

def after (x : EStateM ε σ β) (s : σ) : σ :=
  match x s with
  | .ok _ s' => s'
  | .error _ s' => s'

theorem after_of_ok {x : EStateM ε σ β} {s s' : σ} {b : β} (h : x s = .ok b s') : after x s = s' := by
  simp [after, h]

theorem after_of_error {x : EStateM ε σ β} {s s' : σ} {e : ε} (h : x s = .error e s') :
    after x s = s' := by
  simp [after, h]

def isOk : EStateM.Result ε σ β → Bool
  | .ok _ _ => true
  | .error _ _ => false

theorem ok_of_isOk {x : EStateM ε σ PUnit} {s : σ} (h : isOk (x s) = true) :
    x s = .ok ⟨⟩ (after x s) := by
  unfold after
  cases hx : x s with
  | ok b s' => rfl
  | error e s' =>
    rw [hx] at h
    cases h

def answer? : EStateM.Result ε σ β → Option β
  | .ok b _ => some b
  | .error _ _ => none

theorem ok_of_answer? {x : EStateM ε σ β} {s : σ} {b : β} (h : answer? (x s) = some b) :
    x s = .ok b (after x s) := by
  unfold after
  cases hx : x s with
  | ok c s' =>
    rw [hx] at h
    cases h
    rfl
  | error e s' =>
    rw [hx] at h
    cases h

theorem error_of_isOk {x : EStateM ε σ β} {s : σ} (h : isOk (x s) = false) :
    ∃ e, x s = .error e (after x s) := by
  unfold after
  cases hx : x s with
  | ok b s' =>
    rw [hx] at h
    cases h
  | error e s' => exact ⟨e, rfl⟩

def error? : EStateM.Result ε σ β → Option ε
  | .ok _ _ => none
  | .error e _ => some e

theorem error_of_error? {x : EStateM ε σ β} {s : σ} {e : ε} (h : error? (x s) = some e) :
    x s = .error e (after x s) := by
  unfold after
  cases hx : x s with
  | ok b s' =>
    rw [hx] at h
    cases h
  | error e' s' =>
    rw [hx] at h
    cases h
    rfl

theorem bind_ok_iff {x : EStateM ε σ β} {f : β → EStateM ε σ γ} {s s' : σ} {c : γ} :
    (x >>= f) s = .ok c s' ↔ ∃ b s₁, x s = .ok b s₁ ∧ f b s₁ = .ok c s' := by
  change EStateM.bind x f s = .ok c s' ↔ _
  unfold EStateM.bind
  cases h : x s <;> simp

theorem pure_ok_iff {b c : β} {s s' : σ} :
    (pure b : EStateM ε σ β) s = .ok c s' ↔ b = c ∧ s = s' := by
  change EStateM.Result.ok b s = .ok c s' ↔ _
  simp

theorem get_ok_iff {s s' t : σ} : (get : EStateM ε σ σ) s = .ok t s' ↔ s = t ∧ s = s' := by
  change EStateM.Result.ok s s = .ok t s' ↔ _
  simp

theorem get_bind_ok_iff {f : σ → EStateM ε σ γ} {s s' : σ} {c : γ} :
    ((get : EStateM ε σ σ) >>= f) s = .ok c s' ↔ f s s = .ok c s' := Iff.rfl

theorem set_ok_iff {s s' t : σ} {u : PUnit} : (set t : EStateM ε σ PUnit) s = .ok u s' ↔ s' = t := by
  change EStateM.Result.ok PUnit.unit t = .ok u s' ↔ _
  simp [eq_comm]

theorem set_bind_ok_iff {t s s' : σ} {f : PUnit → EStateM ε σ γ} {c : γ} :
    ((set t : EStateM ε σ PUnit) >>= f) s = .ok c s' ↔ f ⟨⟩ t = .ok c s' := Iff.rfl

theorem modify_ok_iff {f : σ → σ} {s s' : σ} {u : PUnit} :
    (modify f : EStateM ε σ PUnit) s = .ok u s' ↔ s' = f s := by
  change EStateM.Result.ok PUnit.unit (f s) = .ok u s' ↔ _
  simp [eq_comm]

theorem throw_ok_iff {e : ε} {c : β} {s s' : σ} :
    (throw e : EStateM ε σ β) s = .ok c s' ↔ False := by
  change EStateM.Result.error e s = .ok c s' ↔ _
  simp

theorem ofExcept_ok_iff {x : Except ε β} {c : β} {s s' : σ} :
    (ofExcept x : EStateM ε σ β) s = .ok c s' ↔ x = .ok c ∧ s = s' := by
  cases x with
  | error e =>
    change EStateM.Result.error e s = .ok c s' ↔ _
    simp
  | ok b =>
    change EStateM.Result.ok b s = .ok c s' ↔ _
    simp

theorem ofExcept_bind_ok_iff {x : Except ε β} {f : β → EStateM ε σ γ} {s s' : σ} {c : γ} :
    ((ofExcept x : EStateM ε σ β) >>= f) s = .ok c s' ↔ ∃ b, x = .ok b ∧ f b s = .ok c s' := by
  cases x with
  | error e =>
    change EStateM.Result.error e s = .ok c s' ↔ _
    simp
  | ok b =>
    change f b s = .ok c s' ↔ _
    simp

theorem get_bind {f : σ → EStateM ε σ β} {s : σ} : (MonadState.get >>= f) s = f s s := rfl

theorem ofExcept_bind {x : Except ε β} {f : β → EStateM ε σ γ} {s : σ} :
    ((ofExcept x : EStateM ε σ β) >>= f) s = match x with
      | .ok b => f b s
      | .error e => .error e s := by
  cases x <;> rfl

theorem discard_eq (x : EStateM ε σ β) : discard x = x >>= fun _ => pure ⟨⟩ := by
  funext s
  change EStateM.map (Function.const β PUnit.unit) x s = EStateM.bind x (fun _ => EStateM.pure ⟨⟩) s
  unfold EStateM.map EStateM.bind
  cases x s <;> rfl

theorem ite_bind {p : Prop} [Decidable p] {x y : EStateM ε σ β} {f : β → EStateM ε σ γ} :
    (if p then x >>= f else y >>= f) = (if p then x else y) >>= f := by
  split <;> rfl

theorem ite_throw_ok_iff {p : Prop} [Decidable p] {e : ε} {x : EStateM ε σ γ}
    {f : PUnit → EStateM ε σ γ} {s s' : σ} {c : γ} :
    (if p then x else (throw e : EStateM ε σ PUnit) >>= f) s = .ok c s' ↔
      p ∧ x s = .ok c s' := by
  by_cases hp : p
  · simp [hp]
  · simp [hp, bind_ok_iff, throw_ok_iff]

theorem throw_ite_ok_iff {p : Prop} [Decidable p] {e : ε} {x : EStateM ε σ γ}
    {f : PUnit → EStateM ε σ γ} {s s' : σ} {c : γ} :
    (if p then (throw e : EStateM ε σ PUnit) >>= f else x) s = .ok c s' ↔
      ¬p ∧ x s = .ok c s' := by
  by_cases hp : p
  · simp [hp, bind_ok_iff, throw_ok_iff]
  · simp [hp]

theorem bind_error_iff {x : EStateM ε σ β} {f : β → EStateM ε σ γ} {s s' : σ} {e : ε} :
    (x >>= f) s = .error e s' ↔
      x s = .error e s' ∨ ∃ b s₁, x s = .ok b s₁ ∧ f b s₁ = .error e s' := by
  change EStateM.bind x f s = .error e s' ↔ _
  unfold EStateM.bind
  cases h : x s <;> simp

theorem get_error_iff {s s' : σ} {e : ε} :
    (get : EStateM ε σ σ) s = .error e s' ↔ False := by
  change EStateM.Result.ok s s = .error e s' ↔ _
  simp

theorem set_error_iff {s s' t : σ} {e : ε} :
    (set t : EStateM ε σ PUnit) s = .error e s' ↔ False := by
  change EStateM.Result.ok PUnit.unit t = .error e s' ↔ _
  simp

theorem modify_error_iff {f : σ → σ} {s s' : σ} {e : ε} :
    (modify f : EStateM ε σ PUnit) s = .error e s' ↔ False := by
  change EStateM.Result.ok PUnit.unit (f s) = .error e s' ↔ _
  simp

theorem pure_error_iff {b : β} {s s' : σ} {e : ε} :
    (pure b : EStateM ε σ β) s = .error e s' ↔ False := by
  change EStateM.Result.ok b s = .error e s' ↔ _
  simp

theorem throw_error_iff {e e' : ε} {s s' : σ} :
    (throw e : EStateM ε σ β) s = .error e' s' ↔ e = e' ∧ s = s' := by
  change EStateM.Result.error e s = .error e' s' ↔ _
  simp

theorem ofExcept_error_iff {x : Except ε β} {s s' : σ} {e : ε} :
    (ofExcept x : EStateM ε σ β) s = .error e s' ↔ x = .error e ∧ s = s' := by
  cases x with
  | error e' =>
    change EStateM.Result.error e' s = .error e s' ↔ _
    simp
  | ok b =>
    change EStateM.Result.ok b s = .error e s' ↔ _
    simp

theorem throw_ite_error_iff {p : Prop} [Decidable p] {e e' : ε} {x : EStateM ε σ γ}
    {f : PUnit → EStateM ε σ γ} {s s' : σ} :
    (if p then (throw e : EStateM ε σ PUnit) >>= f else x) s = .error e' s' ↔
      p ∧ e = e' ∧ s = s' ∨ ¬p ∧ x s = .error e' s' := by
  by_cases hp : p
  · simp [hp, bind_error_iff, throw_error_iff, throw_ok_iff]
  · simp [hp]

theorem after_induct {P : σ → Prop} {x : EStateM ε σ β} {s : σ} (hs : P s)
    (clean : ∀ e s', x s = .error e s' → s = s') (h : ∀ b s', x s = .ok b s' → P s') :
    P (after x s) := by
  unfold after
  cases hx : x s with
  | ok b s' => exact h b s' hx
  | error e s' => exact clean e s' hx ▸ hs

def Yields (x : EStateM ε σ β) (s : σ) (Q : β → σ → Prop) : Prop :=
  ∃ b s', x s = .ok b s' ∧ Q b s'

theorem Yields.bind {x : EStateM ε σ β} {f : β → EStateM ε σ γ} {s : σ} {Q : β → σ → Prop}
    {R : γ → σ → Prop} (hx : Yields x s Q) (hf : ∀ b s', Q b s' → Yields (f b) s' R) :
    Yields (x >>= f) s R := by
  obtain ⟨b, s₁, hb, hq⟩ := hx
  obtain ⟨c, s', hc, hr⟩ := hf b s₁ hq
  exact ⟨c, s', bind_ok_iff.mpr ⟨b, s₁, hb, hc⟩, hr⟩

theorem Yields.pure {b : β} {s : σ} {Q : β → σ → Prop} (h : Q b s) :
    Yields (ε := ε) (Pure.pure b) s Q :=
  ⟨b, s, pure_ok_iff.mpr ⟨rfl, rfl⟩, h⟩

/-- A property of a state that a call keeps, whether or not it succeeds, and what holds of
its answer. -/
def Keeps (P : σ → Prop) (x : EStateM ε σ β) (Q : β → Prop) : Prop :=
  ∀ s, P s → P (after x s) ∧ ∀ b s', x s = .ok b s' → Q b

theorem Keeps.bind {P : σ → Prop} {x : EStateM ε σ β} {f : β → EStateM ε σ γ}
    {Q : β → Prop} {R : γ → Prop} (hx : Keeps P x Q) (hf : ∀ b, Q b → Keeps P (f b) R) :
    Keeps P (x >>= f) R := by
  intro s hs
  obtain ⟨hafter, hq⟩ := hx s hs
  have hbind : (x >>= f) s = EStateM.bind x f s := rfl
  cases h : x s with
  | ok b s₁ =>
    rw [after_of_ok h] at hafter
    obtain ⟨h₁, h₂⟩ := hf b (hq b s₁ h) s₁ hafter
    simp only [after, hbind, EStateM.bind, h]
    exact ⟨h₁, h₂⟩
  | error e s₁ =>
    simp only [after, h] at hafter
    simp only [after, hbind, EStateM.bind, h]
    exact ⟨hafter, fun b s' h' => nomatch h'⟩

theorem Keeps.pure {P : σ → Prop} {Q : β → Prop} {b : β} (h : Q b) :
    Keeps (ε := ε) P (Pure.pure b) Q := by
  intro s hs
  refine ⟨hs, fun c s' hc => ?_⟩
  rw [pure_ok_iff] at hc
  exact hc.1 ▸ h

theorem Keeps.mono {P : σ → Prop} {x : EStateM ε σ β} {Q R : β → Prop} (hx : Keeps P x Q)
    (h : ∀ b, Q b → R b) : Keeps P x R :=
  fun s hs => ⟨(hx s hs).1, fun b s' hb => h b ((hx s hs).2 b s' hb)⟩

theorem Keeps.get {P : σ → Prop} : Keeps (ε := ε) P (MonadState.get) P := by
  intro s hs
  refine ⟨hs, fun b s' h => ?_⟩
  obtain ⟨rfl, rfl⟩ := get_ok_iff.mp h
  exact hs

theorem Keeps.ofExcept {P : σ → Prop} {x : Except ε β} {Q : β → Prop}
    (h : ∀ b, x = .ok b → Q b) : Keeps P (MonadExcept.ofExcept x : EStateM ε σ β) Q := by
  intro s hs
  refine ⟨after_induct hs (fun e s' he => (ofExcept_error_iff.mp he).2) fun b s' hb => ?_,
    fun b s' hb => h b (ofExcept_ok_iff.mp hb).1⟩
  rwa [← (ofExcept_ok_iff.mp hb).2]

theorem Keeps.throw {P : σ → Prop} {e : ε} {Q : β → Prop} :
    Keeps P (MonadExcept.throw e : EStateM ε σ β) Q :=
  fun _ hs => ⟨hs, fun _ _ h => (throw_ok_iff.mp h).elim⟩

theorem Keeps.throw_ite {P : σ → Prop} {p : Prop} [Decidable p] {e : ε}
    {f : PUnit → EStateM ε σ β} {x : EStateM ε σ β} {Q : β → Prop} (hx : Keeps P x Q) :
    Keeps P (if p then (MonadExcept.throw e : EStateM ε σ PUnit) >>= f else x) Q := by
  by_cases hp : p
  · rw [if_pos hp]
    exact (Keeps.throw (Q := fun _ => False)).bind fun _ hf => hf.elim
  · rwa [if_neg hp]

theorem Keeps.forM {P : σ → Prop} {f : β → EStateM ε σ PUnit} {l : List β}
    (h : ∀ b ∈ l, Keeps P (f b) fun _ => True) : Keeps P (l.forM f) fun _ => True := by
  induction l with
  | nil => exact .pure trivial
  | cons b l ih =>
    rw [List.forM_eq_forM, List.forM_cons]
    exact (h b List.mem_cons_self).bind fun _ _ => ih fun c hc => h c (List.mem_cons_of_mem _ hc)

theorem forM_nil_ok_iff {f : β → EStateM ε σ PUnit} {s s' : σ} :
    ([] : List β).forM f s = .ok ⟨⟩ s' ↔ s' = s := by
  simp [pure_ok_iff, eq_comm]

theorem forM_cons_ok_iff {f : β → EStateM ε σ PUnit} {b : β} {l : List β} {s s' : σ} :
    (b :: l).forM f s = .ok ⟨⟩ s' ↔ ∃ s₁, f b s = .ok ⟨⟩ s₁ ∧ l.forM f s₁ = .ok ⟨⟩ s' := by
  rw [List.forM_eq_forM, List.forM_cons, bind_ok_iff]
  exact ⟨fun ⟨⟨⟩, h⟩ => h, fun h => ⟨⟨⟩, h⟩⟩

theorem forM_append_ok_iff {f : β → EStateM ε σ PUnit} {l l' : List β} {s s' : σ} :
    (l ++ l').forM f s = .ok ⟨⟩ s' ↔ ∃ s₁, l.forM f s = .ok ⟨⟩ s₁ ∧ l'.forM f s₁ = .ok ⟨⟩ s' := by
  rw [List.forM_eq_forM, List.forM_append, bind_ok_iff]
  exact ⟨fun ⟨⟨⟩, h⟩ => h, fun h => ⟨⟨⟩, h⟩⟩

theorem forM_succeeds {f : β → EStateM ε σ PUnit} {P : σ → Prop} {l : List β} {s : σ}
    (step : ∀ x ∈ l, ∀ s, P s → ∃ s', f x s = .ok ⟨⟩ s' ∧ P s') (start : P s) :
    ∃ s', l.forM f s = .ok ⟨⟩ s' ∧ P s' := by
  induction l generalizing s with
  | nil => exact ⟨s, forM_nil_ok_iff.mpr rfl, start⟩
  | cons x l ih =>
    obtain ⟨s₁, hx, hP⟩ := step x List.mem_cons_self s start
    obtain ⟨s', hrest, hP'⟩ := ih (fun y hy => step y (List.mem_cons_of_mem _ hy)) hP
    exact ⟨s', forM_cons_ok_iff.mpr ⟨s₁, hx, hrest⟩, hP'⟩

/-- Every round succeeds, and does its own work without undoing that of an earlier one. -/
theorem forM_completes {f : β → EStateM ε σ PUnit} {R : σ → σ → Prop} {D : β → σ → Prop}
    (refl : ∀ s, R s s) (trans : ∀ s₁ s₂ s₃, R s₁ s₂ → R s₂ s₃ → R s₁ s₃)
    (mono : ∀ b s s', R s s' → D b s → D b s') {l : List β} {s : σ}
    (step : ∀ b ∈ l, ∀ s₁, R s s₁ → ∃ s₂, f b s₁ = .ok ⟨⟩ s₂ ∧ R s₁ s₂ ∧ D b s₂) :
    ∃ s', l.forM f s = .ok ⟨⟩ s' ∧ R s s' ∧ ∀ b ∈ l, D b s' := by
  induction l generalizing s with
  | nil => exact ⟨s, forM_nil_ok_iff.mpr rfl, refl s, by simp⟩
  | cons b l ih =>
    obtain ⟨s₁, hb, hR, hD⟩ := step b List.mem_cons_self s (refl s)
    obtain ⟨s', hrest, hR', hD'⟩ := ih fun c hc s₂ h₂ =>
      step c (List.mem_cons_of_mem _ hc) s₂ (trans _ _ _ hR h₂)
    refine ⟨s', forM_cons_ok_iff.mpr ⟨s₁, hb, hrest⟩, trans _ _ _ hR hR', fun c hc => ?_⟩
    obtain rfl | hc := List.mem_cons.mp hc
    · exact mono c _ _ hR' hD
    · exact hD' c hc

theorem mapM_nil_ok_iff {f : β → EStateM ε σ γ} {r : List γ} {s s' : σ} :
    ([] : List β).mapM f s = .ok r s' ↔ r = [] ∧ s' = s := by
  simp [pure_ok_iff, eq_comm]

theorem mapM_cons_ok_iff {f : β → EStateM ε σ γ} {b : β} {l : List β} {r : List γ} {s s' : σ} :
    (b :: l).mapM f s = .ok r s' ↔
      ∃ c s₁ cs, f b s = .ok c s₁ ∧ l.mapM f s₁ = .ok cs s' ∧ r = c :: cs := by
  simp only [List.mapM_cons, bind_ok_iff, pure_ok_iff]
  constructor
  · rintro ⟨c, s₁, hc, cs, s₂, hcs, rfl, rfl⟩
    exact ⟨c, s₁, cs, hc, hcs, rfl⟩
  · rintro ⟨c, s₁, cs, hc, hcs, rfl⟩
    exact ⟨c, s₁, hc, cs, s', hcs, rfl, rfl⟩

theorem mapM_append_ok_iff {f : β → EStateM ε σ γ} {l l' : List β} {r : List γ} {s s' : σ} :
    (l ++ l').mapM f s = .ok r s' ↔
      ∃ cs s₁ cs', l.mapM f s = .ok cs s₁ ∧ l'.mapM f s₁ = .ok cs' s' ∧ r = cs ++ cs' := by
  rw [List.mapM_append, bind_ok_iff]
  simp only [bind_ok_iff, pure_ok_iff]
  constructor
  · rintro ⟨cs, s₁, hcs, cs', s₂, hcs', rfl, rfl⟩
    exact ⟨cs, s₁, cs', hcs, hcs', rfl⟩
  · rintro ⟨cs, s₁, cs', hcs, hcs', rfl⟩
    exact ⟨cs, s₁, hcs, cs', s', hcs', rfl, rfl⟩

theorem forM_range_induct {P : Nat → σ → Prop} {f : Nat → EStateM ε σ PUnit} {n : Nat} {s s' : σ}
    (zero : P 0 s)
    (step : ∀ i s s', i < n → P i s → f i s = .ok ⟨⟩ s' → P (i + 1) s')
    (h : (List.range n).forM f s = .ok ⟨⟩ s') : P n s' := by
  induction n generalizing s' with
  | zero => rwa [forM_nil_ok_iff.mp h]
  | succ n ih =>
    rw [List.range_succ, forM_append_ok_iff] at h
    obtain ⟨s₁, hs, hlast⟩ := h
    obtain ⟨s₂, hn, he⟩ := forM_cons_ok_iff.mp hlast
    rw [forM_nil_ok_iff.mp he]
    exact step n s₁ s₂ (by omega) (ih (fun i s s' hi => step i s s' (by omega)) hs) hn

theorem forM_range_succeeds {P : Nat → σ → Prop} {f : Nat → EStateM ε σ PUnit} {n : Nat} {s : σ}
    (zero : P 0 s)
    (step : ∀ i s, i < n → P i s → ∃ s', f i s = .ok ⟨⟩ s' ∧ P (i + 1) s') :
    ∃ s', (List.range n).forM f s = .ok ⟨⟩ s' ∧ P n s' := by
  induction n with
  | zero => exact ⟨s, forM_nil_ok_iff.mpr rfl, zero⟩
  | succ n ih =>
    obtain ⟨s₁, hs, hp⟩ := ih fun i s hi => step i s (by omega)
    obtain ⟨s₂, hn, hp'⟩ := step n s₁ (by omega) hp
    refine ⟨s₂, ?_, hp'⟩
    rw [List.range_succ, forM_append_ok_iff]
    exact ⟨s₁, hs, forM_cons_ok_iff.mpr ⟨s₂, hn, forM_nil_ok_iff.mpr rfl⟩⟩

theorem forM_error_iff {f : β → EStateM ε σ PUnit} {l : List β} {s s' : σ} {e : ε} :
    l.forM f s = .error e s' ↔ ∃ before b rest s₁, l = before ++ b :: rest ∧
      before.forM f s = .ok ⟨⟩ s₁ ∧ f b s₁ = .error e s' := by
  induction l generalizing s with
  | nil => simp [pure_error_iff]
  | cons c l ih =>
    rw [List.forM_eq_forM, List.forM_cons, bind_error_iff]
    constructor
    · rintro (hc | ⟨⟨⟩, s₁, hc, hrest⟩)
      · exact ⟨[], c, l, s, rfl, forM_nil_ok_iff.mpr rfl, hc⟩
      · obtain ⟨before, b, rest, s₂, rfl, hbefore, hb⟩ := ih.mp hrest
        exact ⟨c :: before, b, rest, s₂, rfl, forM_cons_ok_iff.mpr ⟨s₁, hc, hbefore⟩, hb⟩
    · rintro ⟨before, b, rest, s₁, hl, hbefore, hb⟩
      cases before with
      | nil =>
        obtain ⟨rfl, rfl⟩ := List.cons.inj hl
        rw [forM_nil_ok_iff.mp hbefore] at hb
        exact .inl hb
      | cons c' before =>
        obtain ⟨rfl, rfl⟩ := List.cons.inj hl
        obtain ⟨s₂, hc, hbefore⟩ := forM_cons_ok_iff.mp hbefore
        exact .inr ⟨⟨⟩, s₂, hc, ih.mpr ⟨before, b, rest, s₁, rfl, hbefore, hb⟩⟩

/-- A call that does all of its work or, where it fails, none of it. -/
def Atomic (x : EStateM ε σ β) : Prop := ∀ s s' e, x s = .error e s' → s' = s

theorem bind_error_of_keeps {x : EStateM ε σ β} {f : β → EStateM ε σ γ} {s s' : σ} {e : ε}
    (hx : Keeps (· = s) x fun _ => True) (h : (x >>= f) s = .error e s') :
    s' = s ∨ ∃ b, x s = .ok b s ∧ f b s = .error e s' := by
  have hafter := (hx s rfl).1
  obtain h | ⟨b, s₁, h, hf⟩ := bind_error_iff.mp h
  · exact .inl (by simpa only [after, h] using hafter)
  · rw [after_of_ok h] at hafter
    exact .inr ⟨b, hafter ▸ h, hafter ▸ hf⟩

theorem Atomic.bind {x : EStateM ε σ β} {f : β → EStateM ε σ γ}
    (hx : ∀ s, Keeps (· = s) x fun _ => True) (hf : ∀ b, Atomic (f b)) : Atomic (x >>= f) := by
  intro s s' e h
  obtain h | ⟨b, -, h⟩ := bind_error_of_keeps (hx s) h
  · exact h
  · exact hf b s s' e h

theorem keeps_get {P : σ → Prop} : Keeps (ε := ε) P (MonadState.get) fun _ => True :=
  Keeps.get.mono fun _ _ => trivial

theorem keeps_ofExcept {P : σ → Prop} (x : Except ε β) :
    Keeps P (MonadExcept.ofExcept x : EStateM ε σ β) fun _ => True :=
  .ofExcept fun _ _ => trivial

end Call

end Backprop
