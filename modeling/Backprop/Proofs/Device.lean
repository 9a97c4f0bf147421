import Mathlib
import Backprop.Device
import Backprop.Proofs.Kernel.Writes

/-! Windows of device memory. What is stored through one window is read back there, and
no window apart from it sees anything of it. -/

namespace Backprop

variable {α : Type}

def Window.Apart (w v : Window) : Prop :=
  w.allocation ≠ v.allocation ∨ w.start + w.count ≤ v.start ∨ v.start + v.count ≤ w.start

theorem Window.Apart.symm {w v : Window} (h : w.Apart v) : v.Apart w := by
  unfold Apart at *
  omega

namespace Device

def Holds (d : Device α) (w : Window) : Prop :=
  ∃ words, d.memory[w.allocation]? = some words ∧ w.start + w.count ≤ words.size

def sizes (d : Device α) : Array Nat := d.memory.map (·.size)

theorem Holds.of_sizes_eq {d e : Device α} {w : Window} (h : d.Holds w) (hs : e.sizes = d.sizes) :
    e.Holds w := by
  obtain ⟨words, hw, hlen⟩ := h
  have he : (e.sizes)[w.allocation]? = some words.size := by
    rw [hs, sizes, Array.getElem?_map, hw]
    rfl
  rw [sizes, Array.getElem?_map, Option.map_eq_some_iff] at he
  obtain ⟨found, hf, hsize⟩ := he
  exact ⟨found, hf, by omega⟩

theorem size_words {d : Device α} {w : Window} (h : d.Holds w) : (d.words w).size = w.count := by
  obtain ⟨found, hf, hlen⟩ := h
  simp only [words, hf, Array.size_extract]
  omega

theorem overlay_fold (words data : Array α) (start m : Nat) (hm : m ≤ data.size) (i : Nat) :
    (Nat.fold m (fun i h words => words.setIfInBounds (start + i) data[i]) words)[i]? =
      if start ≤ i ∧ i < start + m ∧ i < words.size then data[i - start]? else words[i]? := by
  induction m with
  | zero =>
    rw [Nat.fold_zero, if_neg (by omega)]
  | succ m ih =>
    have hsize : (Nat.fold m (fun i h words => words.setIfInBounds (start + i) data[i]) words).size =
        words.size := by
      clear ih
      induction m with
      | zero => rfl
      | succ m ihm => rw [Nat.fold_succ, Array.size_setIfInBounds, ihm (by omega)]
    rw [Nat.fold_succ, Array.getElem?_setIfInBounds, hsize, ih (by omega)]
    by_cases he : start + m = i
    · subst i
      by_cases hlt : start + m < words.size
      · have hd : m < data.size := by omega
        simp [hlt, hd]
      · simp [hlt]
    · rw [if_neg he]
      by_cases hc : start ≤ i ∧ i < start + m ∧ i < words.size
      · rw [if_pos hc, if_pos (by omega)]
      · rw [if_neg hc, if_neg (by omega)]

theorem getElem?_overlay (words data : Array α) (start i : Nat) :
    (overlay words start data)[i]? =
      if start ≤ i ∧ i < start + data.size ∧ i < words.size then data[i - start]? else words[i]? :=
  overlay_fold words data start data.size le_rfl i

@[simp] theorem size_overlay (words data : Array α) (start : Nat) :
    (overlay words start data).size = words.size := by
  refine Nat.le_antisymm ?_ ?_ <;> refine Nat.le_of_not_lt fun hlt => ?_
  · have hh := getElem?_overlay words data start words.size
    rw [if_neg (by omega), Array.getElem?_eq_none le_rfl, Array.getElem?_eq_none_iff] at hh
    omega
  · have hh := getElem?_overlay words data start (overlay words start data).size
    rw [Array.getElem?_eq_none le_rfl] at hh
    split at hh
    · rw [eq_comm, Array.getElem?_eq_none_iff] at hh
      omega
    · rw [eq_comm, Array.getElem?_eq_none_iff] at hh
      omega

@[simp] theorem sizes_store (d : Device α) (w : Window) (data : Array α) :
    (d.store w data).sizes = d.sizes := by
  refine Array.ext_getElem? fun i => ?_
  simp only [sizes, store, Array.getElem?_map, Array.getElem?_modify]
  by_cases h : w.allocation = i
  · rw [if_pos h]
    cases d.memory[i]? <;> simp
  · rw [if_neg h]

theorem words_store_self {d : Device α} {w : Window} {data : Array α} (h : d.Holds w)
    (hs : data.size = w.count) : (d.store w data).words w = data := by
  obtain ⟨found, hf, hlen⟩ := h
  have hget : (d.store w data).memory[w.allocation]? = some (overlay found w.start data) := by
    simp [store, Array.getElem?_modify, hf]
  refine Array.ext_getElem? fun i => ?_
  simp only [words, hget, Array.getElem?_extract, size_overlay, getElem?_overlay]
  by_cases hi : i < w.count
  · rw [if_pos (by omega), if_pos (by omega), Nat.add_sub_cancel_left]
  · rw [if_neg (by omega), Array.getElem?_eq_none (by omega)]

theorem words_store_apart {d : Device α} {w v : Window} {data : Array α} (h : w.Apart v)
    (hs : data.size ≤ w.count) : (d.store w data).words v = d.words v := by
  by_cases he : w.allocation = v.allocation
  · have hw : w.start + w.count ≤ v.start ∨ v.start + v.count ≤ w.start :=
      h.resolve_left fun hne => hne he
    cases hf : d.memory[v.allocation]? with
    | none => simp [words, store, Array.getElem?_modify, he, hf]
    | some found =>
      have hget : (d.store w data).memory[v.allocation]? = some (overlay found w.start data) := by
        simp [store, Array.getElem?_modify, he, hf]
      refine Array.ext_getElem? fun i => ?_
      simp only [words, hget, hf, Array.getElem?_extract, size_overlay, getElem?_overlay]
      by_cases hi : i < min (v.start + v.count) found.size - v.start
      · rw [if_pos hi, if_pos hi, if_neg (by omega)]
      · rw [if_neg hi, if_neg hi]
  · simp [words, store, Array.getElem?_modify, he]

theorem window_ok_iff {d : Device α} {allocation offset length : Nat} {w : Window} :
    d.window allocation offset length = .ok w ↔
      offset % 4 = 0 ∧ length % 4 = 0 ∧ w = ⟨allocation, offset / 4, length / 4⟩ ∧ d.Holds w := by
  unfold window
  by_cases ha : offset % 4 ≠ 0 ∨ length % 4 ≠ 0
  · rw [if_pos ha]
    simp only [reduceCtorEq, false_iff]
    omega
  · rw [if_neg ha]
    push Not at ha
    cases hf : d.memory[allocation]? with
    | none =>
      simp only [reduceCtorEq, false_iff]
      rintro ⟨-, -, rfl, found, hfound, -⟩
      simp [hf] at hfound
    | some words =>
      by_cases hlen : offset / 4 + length / 4 > words.size
      · simp only [hlen, if_true, reduceCtorEq, false_iff]
        rintro ⟨-, -, rfl, found, hfound, hle⟩
        simp only [hf, Option.some.injEq] at hfound
        subst hfound
        exact absurd hle (Nat.not_le.mpr hlen)
      · simp only [hlen, if_false, Except.ok.injEq]
        constructor
        · rintro rfl
          exact ⟨ha.1, ha.2, rfl, words, hf, by simpa using hlen⟩
        · rintro ⟨-, -, rfl, -⟩
          rfl

end Device

end Backprop
