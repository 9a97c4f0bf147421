import Mathlib
import Backprop.Capacity
import Backprop.Kernel.Operands
import Backprop.Kernel.Loop
import Backprop.Proofs.Call

/-! Loops over arrays: what a loop that ends has done to every entry, and which loops
come to their end. -/

namespace Backprop

variable {α σ : Type}

theorem divisor_ok_iff {n d : Nat} : divisor n = .ok d ↔ 0 < n ∧ n = d := by
  unfold divisor
  split
  · simp_all
  · simp only [Except.ok.injEq]
    omega

theorem loopFrom_induct {P : Nat → σ → Prop} {step : Nat → σ → Except Error σ} {count i : Nat}
    {s s' : σ} (start : P i s)
    (next : ∀ j s s', i ≤ j → j < i + count → P j s → step j s = .ok s' → P (j + 1) s')
    (h : loopFrom step count i s = .ok s') : P (i + count) s' := by
  induction count generalizing i s with
  | zero =>
    rw [loopFrom] at h
    cases h
    exact start
  | succ count ih =>
    rw [loopFrom] at h
    cases hs : step i s with
    | error e => simp [hs] at h
    | ok t =>
      rw [hs] at h
      have hh := ih (next i s t le_rfl (by omega) start hs)
        (fun j s s' hj hj' => next j s s' (by omega) (by omega)) h
      rwa [Nat.add_right_comm i 1 count] at hh

theorem loopFrom_succeeds {P : Nat → σ → Prop} {step : Nat → σ → Except Error σ} {count i : Nat}
    {s : σ} (start : P i s)
    (next : ∀ j s, i ≤ j → j < i + count → P j s → ∃ s', step j s = .ok s' ∧ P (j + 1) s') :
    ∃ s', loopFrom step count i s = .ok s' ∧ P (i + count) s' := by
  induction count generalizing i s with
  | zero => exact ⟨s, rfl, start⟩
  | succ count ih =>
    obtain ⟨t, ht, hp⟩ := next i s le_rfl (by omega) start
    obtain ⟨s', hs, hp'⟩ := ih hp fun j s hj hj' => next j s (by omega) (by omega)
    refine ⟨s', ?_, by rwa [Nat.add_right_comm i 1 count] at hp'⟩
    rw [loopFrom, ht]
    exact hs

theorem loop_induct {P : Nat → σ → Prop} {step : Nat → σ → Except Error σ} {n : Nat} {s s' : σ}
    (start : P 0 s) (next : ∀ i s s', i < n → P i s → step i s = .ok s' → P (i + 1) s')
    (h : loop n s step = .ok s') : P n s' := by
  have hh := loopFrom_induct start (fun j s s' _ hj => next j s s' (by omega)) h
  rwa [Nat.zero_add] at hh

theorem loop_succeeds {P : Nat → σ → Prop} {step : Nat → σ → Except Error σ} {n : Nat} {s : σ}
    (start : P 0 s) (next : ∀ i s, i < n → P i s → ∃ s', step i s = .ok s' ∧ P (i + 1) s') :
    ∃ s', loop n s step = .ok s' ∧ P n s' := by
  have hh : ∃ s', loopFrom step n 0 s = .ok s' ∧ P (0 + n) s' :=
    loopFrom_succeeds start fun j s _ hj => next j s (by omega)
  rwa [Nat.zero_add] at hh

/-- A loop whose rounds all succeed, whatever they find, succeeds. -/
theorem loop_total {step : Nat → σ → Except Error σ} {n : Nat} {s : σ}
    (next : ∀ i s, i < n → ∃ s', step i s = .ok s') : ∃ s', loop n s step = .ok s' := by
  obtain ⟨s', hs, _⟩ := loop_succeeds (P := fun _ _ => True) trivial
    fun i s hi _ => (next i s hi).imp fun _ h => ⟨h, trivial⟩
  exact ⟨s', hs⟩

theorem read_ok_iff {a : Array α} {i : Nat} {x : α} : read a i = .ok x ↔ a[i]? = some x := by
  unfold read
  split
  · next h => simp [h]
  · next h => simp [h]

theorem write_ok_iff {a a' : Array α} {i : Nat} {x : α} :
    write a i x = .ok a' ↔ i < a.size ∧ a' = a.setIfInBounds i x := by
  unfold write
  split
  · next h => simp [h, Array.setIfInBounds, eq_comm]
  · next h => simp [h]

theorem update_ok_iff {a a' : Array α} {i : Nat} {f : α → Except Error α} :
    update a i f = .ok a' ↔
      ∃ x y, a[i]? = some x ∧ f x = .ok y ∧ a' = a.setIfInBounds i y := by
  simp only [update, Except.bind_ok_iff, read_ok_iff, write_ok_iff]
  constructor
  · rintro ⟨x, hx, y, hy, _, ha⟩
    exact ⟨x, y, hx, hy, ha⟩
  · rintro ⟨x, y, hx, hy, ha⟩
    exact ⟨x, hx, y, hy, (Array.getElem?_eq_some_iff.mp hx).1, ha⟩

theorem update_size {a a' : Array α} {i : Nat} {f : α → Except Error α}
    (h : update a i f = .ok a') : a'.size = a.size := by
  obtain ⟨x, y, _, _, rfl⟩ := update_ok_iff.mp h
  exact Array.size_setIfInBounds

/-- An update reaches each entry of its span once, and no other. -/
theorem updateSpan_entries {base n : Nat} {a a' : Array α} {f : Nat → α → Except Error α}
    (h : updateSpan base n a f = .ok a') :
    a'.size = a.size ∧
    (∀ i < n, ∃ x y, a[base + i]? = some x ∧ f i x = .ok y ∧ a'[base + i]? = some y) ∧
    ∀ j, j < base ∨ base + n ≤ j → a'[j]? = a[j]? := by
  refine loop_induct (P := fun m b => b.size = a.size ∧
    (∀ i < m, ∃ x y, a[base + i]? = some x ∧ f i x = .ok y ∧ b[base + i]? = some y) ∧
    ∀ j, j < base ∨ base + m ≤ j → b[j]? = a[j]?) ⟨rfl, by simp, fun j _ => rfl⟩ ?_ h
  intro m b c hm ⟨hsize, hdone, hrest⟩ hc
  obtain ⟨x, y, hx, hy, rfl⟩ := update_ok_iff.mp hc
  have hlt : base + m < b.size := (Array.getElem?_eq_some_iff.mp hx).1
  refine ⟨by rw [Array.size_setIfInBounds, hsize], fun i hi => ?_, fun j hj => ?_⟩
  · by_cases he : i = m
    · subst i
      exact ⟨x, y, by rw [← hrest _ (by omega), hx], hy, by simp [hlt]⟩
    · obtain ⟨x', y', hx', hy', hb⟩ := hdone i (by omega)
      exact ⟨x', y', hx', hy', by rw [Array.getElem?_setIfInBounds_ne (by omega), hb]⟩
  · rw [Array.getElem?_setIfInBounds_ne (by omega), hrest j (by omega)]

theorem updateSpan_size {base n : Nat} {a a' : Array α} {f : Nat → α → Except Error α}
    (h : updateSpan base n a f = .ok a') : a'.size = a.size := (updateSpan_entries h).1

theorem updateSpan_succeeds {base n : Nat} {a : Array α} {f : Nat → α → Except Error α}
    (room : base + n ≤ a.size) (total : ∀ i < n, ∀ x, ∃ y, f i x = .ok y) :
    ∃ a', updateSpan base n a f = .ok a' := by
  have hh : ∃ a', updateSpan base n a f = .ok a' ∧ a'.size = a.size := by
    refine loop_succeeds (P := fun _ (b : Array α) => b.size = a.size) rfl fun i b hi hb => ?_
    have hlt : base + i < b.size := by omega
    obtain ⟨y, hy⟩ := total i hi b[base + i]
    exact ⟨b.setIfInBounds (base + i) y,
      update_ok_iff.mpr ⟨b[base + i], y, by simp [hlt], hy, rfl⟩, by simp [hb]⟩
  exact hh.imp fun _ h => h.1

theorem updateFirst_entries {n : Nat} {a a' : Array α} {f : Nat → α → Except Error α}
    (h : updateFirst n a f = .ok a') : a'.size = a.size ∧
      (∀ i < n, ∃ x y, a[i]? = some x ∧ f i x = .ok y ∧ a'[i]? = some y) ∧
      ∀ i, n ≤ i → a'[i]? = a[i]? := by
  obtain ⟨hsize, hall, hrest⟩ := updateSpan_entries h
  refine ⟨hsize, fun i hi => ?_, fun i hi => hrest i (.inr (by omega))⟩
  simpa only [Nat.zero_add] using hall i hi

theorem updateFirst_size {n : Nat} {a a' : Array α} {f : Nat → α → Except Error α}
    (h : updateFirst n a f = .ok a') : a'.size = a.size := updateSpan_size h

theorem updateFirst_succeeds {n : Nat} {a : Array α} {f : Nat → α → Except Error α}
    (room : n ≤ a.size) (total : ∀ i < n, ∀ x, ∃ y, f i x = .ok y) :
    ∃ a', updateFirst n a f = .ok a' := updateSpan_succeeds (by omega) total

theorem foldlM_induct {β : Type} {P : σ → Prop} {f : σ → β → Except Error σ} {l : List β} {s s' : σ}
    (start : P s) (next : ∀ s b s', b ∈ l → P s → f s b = .ok s' → P s')
    (h : l.foldlM f s = .ok s') : P s' := by
  induction l generalizing s with
  | nil =>
    cases h
    exact start
  | cons b l ih =>
    rw [List.foldlM_cons, Except.bind_ok_iff] at h
    obtain ⟨t, ht, hl⟩ := h
    exact ih (next s b t (by simp) start ht)
      (fun s b s' hb => next s b s' (List.mem_cons_of_mem _ hb)) hl

theorem foldlM_succeeds {β : Type} {P : σ → Prop} {f : σ → β → Except Error σ} {l : List β} {s : σ}
    (start : P s) (next : ∀ s, ∀ b ∈ l, P s → ∃ s', f s b = .ok s' ∧ P s') :
    ∃ s', l.foldlM f s = .ok s' ∧ P s' := by
  induction l generalizing s with
  | nil => exact ⟨s, rfl, start⟩
  | cons b l ih =>
    obtain ⟨t, ht, hp⟩ := next s b (by simp) start
    obtain ⟨s', hs, hp'⟩ := ih hp fun s b hb => next s b (List.mem_cons_of_mem _ hb)
    exact ⟨s', by rw [List.foldlM_cons, ht]; exact hs, hp'⟩

namespace Operands

theorem get_ok_iff {o : Operands α} {i : Nat} {x : Operand α} :
    o.get i = .ok x ↔ o.args[i]? = some x := by
  unfold get
  cases o.args[i]? <;> simp

theorem held_eq {o : Operands α} {i : Nat} {data : Array α} (h : o.args[i]? = some (.words data)) :
    o.held i = data.size := by
  simp only [held, h]

theorem words_ok_iff {o : Operands α} {i n : Nat} {data : Array α} :
    o.words i n = .ok data ↔ o.args[i]? = some (.words data) ∧ n ≤ data.size := by
  simp only [words, Except.bind_ok_iff, get_ok_iff]
  constructor
  · rintro ⟨x, hx, h⟩
    cases x with
    | words found =>
      by_cases hn : n ≤ found.size
      · simp only [hn, if_true, Except.pure_ok_iff] at h
        subst h
        exact ⟨hx, hn⟩
      · simp [hn, Except.throw_ok_iff] at h
    | scalar s => simp [Except.throw_ok_iff] at h
    | blob bytes => simp [Except.throw_ok_iff] at h
  · rintro ⟨hx, hn⟩
    exact ⟨_, hx, by simp [hn, Except.pure_ok_iff]⟩

theorem requireSize_of_words {o : Operands α} {i n : Nat} {data : Array α}
    (h : o.words i n = .ok data) : requireSize n (o.held i) = .ok () := by
  obtain ⟨hdata, hn⟩ := words_ok_iff.mp h
  rw [held_eq hdata]
  exact requireSize_ok_iff.mpr (.inl hn)

end Operands

end Backprop
