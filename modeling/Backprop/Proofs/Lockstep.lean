import Mathlib
import Backprop.Proofs.Call
import Backprop.Proofs.Kernel.Loop

/-! Computations in lockstep: both fail with the same error, or both succeed and their answers
correspond. -/

namespace Backprop

variable {ε σ τ α β γ : Type}

theorem Except.ok_bind {a : α} {f : α → Except ε β} : (Except.ok a >>= f) = f a := rfl

/-- Both fail with the same error, or both succeed and their answers correspond. -/
def Except.Alike (R : α → β → Prop) : Except ε α → Except ε β → Prop
  | .ok a, .ok b => R a b
  | .error e, .error e' => e = e'
  | _, _ => False

namespace Except.Alike

variable {R : α → β → Prop} {x : Except ε α} {y : Except ε β}

theorem of_eq {x y : Except ε α} {R : α → α → Prop} (h : x = y) (refl : ∀ a, x = .ok a → R a a) :
    Alike R x y := by
  subst h
  cases x with
  | ok a => exact refl a rfl
  | error e => exact rfl

theorem eq {x y : Except ε α} (h : Alike (· = ·) x y) : x = y := by
  cases x <;> cases y <;> simp_all [Alike]

theorem mono {R' : α → β → Prop} (h : Alike R x y)
    (hR : ∀ a b, x = .ok a → y = .ok b → R a b → R' a b) : Alike R' x y := by
  cases x <;> cases y <;> simp_all [Alike]

theorem bind {α' β' : Type} {R' : α' → β' → Prop} {f : α → Except ε α'} {g : β → Except ε β'}
    (h : Alike R x y) (hf : ∀ a b, x = .ok a → y = .ok b → R a b → Alike R' (f a) (g b)) :
    Alike R' (x >>= f) (y >>= g) := by
  cases x with
  | error e =>
    cases y with
    | error e' => exact h
    | ok b => exact h.elim
  | ok a =>
    cases y with
    | error e' => exact h.elim
    | ok b => exact hf a b rfl rfl h

theorem pure {a : α} {b : β} (h : R a b) : Alike R (.ok a : Except ε α) (.ok b) := h

theorem bind_left {α' β' : Type} {R : α' → β' → Prop} {x : Except ε α} {f : α → Except ε α'}
    {g : α → Except ε β'} (h : ∀ a, x = .ok a → Alike R (f a) (g a)) :
    Alike R (x >>= f) (x >>= g) := by
  cases x with
  | error e => exact rfl
  | ok a => exact h a rfl

theorem mapError {f : ε → τ} (h : Alike R x y) : Alike R (x.mapError f) (y.mapError f) := by
  cases x <;> cases y <;> simp_all [Alike, Except.mapError]

theorem mapM {R : β → γ → Prop} {f : α → Except ε β} {g : α → Except ε γ} {l : List α}
    (h : ∀ a ∈ l, Alike R (f a) (g a)) : Alike (List.Forall₂ R) (l.mapM f) (l.mapM g) := by
  induction l with
  | nil => exact .nil
  | cons a l ih =>
    rw [List.mapM_cons, List.mapM_cons]
    refine (h a List.mem_cons_self).bind fun b c _ _ hbc => ?_
    refine (ih fun a ha => h a (List.mem_cons_of_mem _ ha)).bind fun bs cs _ _ hbcs => ?_
    exact .cons hbc hbcs

end Except.Alike

/-- Both calls fail with the same error or give the same answer, and what they leave
corresponds. -/
inductive Call.Alike (R : σ → τ → Prop) : EStateM.Result ε σ α → EStateM.Result ε τ α → Prop
  | ok {a : α} {s : σ} {t : τ} (h : R s t) : Alike R (.ok a s) (.ok a t)
  | error {e : ε} {s : σ} {t : τ} (h : R s t) : Alike R (.error e s) (.error e t)

theorem Call.Alike.bind {R : σ → τ → Prop} {x : EStateM ε σ α} {y : EStateM ε τ α}
    {f : α → EStateM ε σ β} {g : α → EStateM ε τ β} {s : σ} {t : τ} (h : Alike R (x s) (y t))
    (hf : ∀ a s' t', R s' t' → Alike R (f a s') (g a t')) :
    Alike R ((x >>= f) s) ((y >>= g) t) := by
  have hbind : (x >>= f) s = EStateM.bind x f s := rfl
  have hbind' : (y >>= g) t = EStateM.bind y g t := rfl
  rw [hbind, hbind', EStateM.bind, EStateM.bind]
  cases hx : x s with
  | ok a s' =>
    cases hy : y t with
    | ok a' t' =>
      rw [hx, hy] at h
      cases h with
      | ok h => exact hf a s' t' h
    | error e t' => rw [hx, hy] at h; nomatch h
  | error e s' =>
    cases hy : y t with
    | ok a t' => rw [hx, hy] at h; nomatch h
    | error e' t' =>
      rw [hx, hy] at h
      cases h with
      | error h => exact .error h

theorem Call.Alike.after {R : σ → τ → Prop} {x : EStateM ε σ α} {y : EStateM ε τ α} {s : σ} {t : τ}
    (h : Alike R (x s) (y t)) : R (Call.after x s) (Call.after y t) := by
  unfold Call.after
  cases hx : x s <;> cases hy : y t <;> rw [hx, hy] at h <;> cases h <;> assumption

/-! ### Loops -/

section

variable {σ τ : Type}

theorem loopFrom_alike {R : Nat → σ → τ → Prop} {step : Nat → σ → Except Error σ}
    {step' : Nat → τ → Except Error τ} {count i : Nat} {s : σ} {t : τ} (start : R i s t)
    (next : ∀ j s t, j < i + count → R j s t →
      Except.Alike (R (j + 1)) (step j s) (step' j t)) :
    Except.Alike (R (i + count)) (loopFrom step count i s) (loopFrom step' count i t) := by
  induction count generalizing i s t with
  | zero => exact start
  | succ count ih =>
    have hstep := next i s t (by omega) start
    rw [loopFrom, loopFrom]
    cases hs : step i s with
    | error e =>
      cases ht : step' i t with
      | error e' => rwa [hs, ht] at hstep
      | ok t' =>
        rw [hs, ht] at hstep
        exact hstep.elim
    | ok s' =>
      cases ht : step' i t with
      | error e' =>
        rw [hs, ht] at hstep
        exact hstep.elim
      | ok t' =>
        rw [hs, ht] at hstep
        have hh := ih hstep fun j s t hj => next j s t (by omega)
        rwa [Nat.add_right_comm i 1 count] at hh

/-- Loops whose rounds go in lockstep. -/
theorem loop_alike {R : Nat → σ → τ → Prop} {step : Nat → σ → Except Error σ}
    {step' : Nat → τ → Except Error τ} {n : Nat} {s : σ} {t : τ} (start : R 0 s t)
    (next : ∀ i s t, i < n → R i s t → Except.Alike (R (i + 1)) (step i s) (step' i t)) :
    Except.Alike (R n) (loop n s step) (loop n t step') := by
  have hh : Except.Alike (R (0 + n)) (loopFrom step n 0 s) (loopFrom step' n 0 t) :=
    loopFrom_alike start fun j s t hj => next j s t (by omega)
  rwa [Nat.zero_add] at hh

theorem loop_congr {step step' : Nat → σ → Except Error σ} {n : Nat} (s : σ)
    (h : ∀ i s, i < n → step i s = step' i s) : loop n s step = loop n s step' := by
  refine Except.Alike.eq (loop_alike (R := fun _ => (· = ·)) rfl ?_)
  rintro i s _ hi rfl
  exact .of_eq (h i s hi) fun _ _ => rfl

theorem foldlM_congr {f g : σ → β → Except Error σ} {l : List β}
    (h : ∀ s, ∀ b ∈ l, f s b = g s b) (s : σ) : l.foldlM f s = l.foldlM g s := by
  induction l generalizing s with
  | nil => rfl
  | cons b l ih =>
    rw [List.foldlM_cons, List.foldlM_cons, h s b List.mem_cons_self]
    congr 1
    funext t
    exact ih (fun t c hc => h t c (List.mem_cons_of_mem _ hc)) t

theorem updateSpan_congr {base n : Nat} (a : Array α) {f g : Nat → α → Except Error α}
    (h : ∀ i x, i < n → f i x = g i x) : updateSpan base n a f = updateSpan base n a g := by
  refine loop_congr a fun i a hi => ?_
  rw [update, update]
  congr 1
  funext x
  rw [h i x hi]

theorem updateFirst_congr {n : Nat} (a : Array α) {f g : Nat → α → Except Error α}
    (h : ∀ i x, i < n → f i x = g i x) : updateFirst n a f = updateFirst n a g :=
  updateSpan_congr a h

def SameFirst (n : Nat) (a b : Array α) : Prop := b.size = a.size ∧ ∀ i < n, b[i]? = a[i]?

theorem SameFirst.refl (n : Nat) (a : Array α) : SameFirst n a a := ⟨rfl, fun _ _ => rfl⟩

theorem SameFirst.read {n i : Nat} {a b : Array α} (h : SameFirst n a b) (hi : i < n) :
    read b i = read a i := by
  have hget := h.2 i hi
  unfold Backprop.read
  by_cases hlt : i < a.size
  · have hlt' : i < b.size := h.1 ▸ hlt
    rw [dif_pos hlt, dif_pos hlt', Except.ok.injEq, ← Option.some.injEq,
      ← Array.getElem?_eq_getElem hlt, ← Array.getElem?_eq_getElem hlt', hget]
  · rw [dif_neg hlt, dif_neg (h.1 ▸ hlt)]

/-- First entries that do not depend on what was there before are the same after all. -/
theorem updateFirst_sameFirst {n : Nat} {a b : Array α} {f : Nat → α → Except Error α}
    (hs : b.size = a.size) (blind : ∀ i x y, f i x = f i y) :
    Except.Alike (SameFirst n) (updateFirst n a f) (updateFirst n b f) := by
  refine loop_alike (R := SameFirst) ⟨hs, fun i hi => absurd hi (Nat.not_lt_zero i)⟩ ?_
  rintro i s t hi ⟨hsize, hfirst⟩
  rw [update, update, Nat.zero_add]
  by_cases hlt : i < s.size
  · rw [read_of_lt hlt, read_of_lt (hsize ▸ hlt)]
    simp only [bind, Except.bind, blind i t[i] s[i]]
    cases f i s[i] with
    | error e => exact rfl
    | ok y =>
      simp only [write_of_lt hlt, write_of_lt (hsize ▸ hlt : i < t.size)]
      refine ⟨by simp [hsize], fun j hj => ?_⟩
      obtain hj | rfl := Nat.lt_succ_iff_lt_or_eq.mp hj
      · rw [Array.getElem?_set_ne _ (by omega), Array.getElem?_set_ne _ (by omega), hfirst j hj]
      · simp
  · unfold Backprop.read
    rw [dif_neg hlt, dif_neg (hsize ▸ hlt)]
    exact rfl

end

end Backprop
