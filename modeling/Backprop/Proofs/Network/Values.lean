import Mathlib
import Backprop.Proofs.Network.Graph

/-! Runs of a compiled network, seen as changes of the values of its places. -/

namespace Backprop

variable {α : Type} [Scalar α]

namespace Backend

variable {b b₀ c : Backend α}

theorem Executes.single {r : Request α} {d : Dispatch α} {k : HostKernel} {i : Nat} {h : BufferId}
    (he : Executes d b c) (hi : b₀.Implements r d) (hkernels : b.kernels = b₀.kernels)
    (hk : HostKernel.ofName? r.kernel = some k) (hout : k.outputs = [i])
    (harg : r.args[i]? = some (.buffer h)) :
    ∃ data, k.run ⟨r.args.map b.operand, r.launch⟩ = .ok [(i, data)] ∧
      data.size = (b.contents h).size ∧ b.Resolves h ∧ c = b.put h data := by
  obtain ⟨dev, hexec, rfl⟩ := he
  obtain ⟨compiled, ws, hcompiled, hres, hrun, rfl⟩ := execute_ok_iff.mp hexec
  obtain ⟨compiled', hcompiled', hname⟩ := hi.kernel
  rw [hkernels, hcompiled'] at hcompiled
  cases hcompiled
  rw [hk] at hname
  cases hname
  rw [hi.args] at hres hrun
  rw [hi.launch] at hrun
  obtain ⟨hfst, hsize⟩ := HostKernel.run_changes hrun
  rw [hout] at hfst
  obtain ⟨data, rfl⟩ : ∃ data, ws = [(i, data)] := by
    obtain _ | ⟨⟨j, data⟩, _ | ⟨w, ws⟩⟩ := ws
    · cases hfst
    · simp only [List.map_cons, List.map_nil, List.cons.injEq, and_true] at hfst
      exact ⟨data, by rw [hfst]⟩
    · simp at hfst
  obtain ⟨old, hold, hlen⟩ := hsize (i, data) List.mem_cons_self
  simp only [List.getElem?_map, harg, Option.map_some, Option.some.injEq, operand,
    Operand.words.injEq] at hold
  refine ⟨data, hrun, by rw [hlen, ← hold], hres h (List.mem_of_getElem? harg), ?_⟩
  have hput : putBack d.args b (i, data) = b.put h data := by
    simp only [putBack, hi.args, harg]
  rw [List.foldl_cons, List.foldl_nil, hput]
  exact (put_same b h data).symm

theorem Runs.of_range_succ {f : Nat → List (Request α)} {n : Nat} {ds : List (Dispatch α)}
    (hi : List.Forall₂ b₀.Implements ((List.range (n + 1)).flatMap f) ds) (hr : Runs ds b c) :
    ∃ es es' m, List.Forall₂ b₀.Implements ((List.range n).flatMap f) es ∧ Runs es b m ∧
      List.Forall₂ b₀.Implements (f n) es' ∧ Runs es' m c := by
  rw [List.range_succ, List.flatMap_append, List.flatMap_singleton] at hi
  have htake := List.forall₂_take_append _ _ _ hi.flip
  have hdrop := List.forall₂_drop_append _ _ _ hi.flip
  rw [← List.take_append_drop ((List.range n).flatMap f).length ds] at hr
  obtain ⟨m, hm, hm'⟩ := Runs.append.mp hr
  exact ⟨_, _, m, htake.flip, hm, hdrop.flip, hm'⟩

/-- What a run over requests grouped by indices keeps. -/
theorem Runs.flatMap_range {P : Nat → Backend α → Prop} {f : Nat → List (Request α)} {n : Nat}
    {ds : List (Dispatch α)} (hi : List.Forall₂ b₀.Implements ((List.range n).flatMap f) ds)
    (hr : Runs ds b c) (start : P 0 b)
    (next : ∀ i b c es, i < n → P i b → List.Forall₂ b₀.Implements (f i) es → Runs es b c →
      P (i + 1) c) : P n c := by
  induction n generalizing ds c with
  | zero =>
    simp only [List.range_zero, List.flatMap_nil, List.forall₂_nil_left_iff] at hi
    rw [hi] at hr
    rwa [hr]
  | succ n ih =>
    obtain ⟨es, es', m, hes, hm, hes', hm'⟩ := hr.of_range_succ hi
    exact next n m c es' (Nat.lt_succ_self n)
      (ih hes hm fun i b c es hlt => next i b c es (Nat.lt_succ_of_lt hlt)) hes' hm'

theorem Runs.flatMap_range_pair {P : Backend α → Backend α → Prop}
    {f f' : Nat → List (Request α)} {n : Nat} {d₀ d d' : Backend α} {ds ds' : List (Dispatch α)}
    (hi : List.Forall₂ b₀.Implements ((List.range n).flatMap f) ds) (hr : Runs ds b c)
    (hi' : List.Forall₂ d₀.Implements ((List.range n).flatMap f') ds') (hr' : Runs ds' d d')
    (start : P b d)
    (next : ∀ i b c d d' es es', i < n → P b d → List.Forall₂ b₀.Implements (f i) es →
      Runs es b c → List.Forall₂ d₀.Implements (f' i) es' → Runs es' d d' → P c d') :
    P c d' := by
  induction n generalizing ds ds' c d' with
  | zero =>
    simp only [List.range_zero, List.flatMap_nil, List.forall₂_nil_left_iff] at hi hi'
    rw [hi] at hr
    rw [hi'] at hr'
    rwa [hr, hr']
  | succ n ih =>
    obtain ⟨es, last, m, hes, hm, hlast, hm'⟩ := hr.of_range_succ hi
    obtain ⟨fs, last', k, hfs, hk, hlast', hk'⟩ := hr'.of_range_succ hi'
    refine next n m c k d' last last' (Nat.lt_succ_self n) (ih hes hm hfs hk ?_) hlast hm' hlast' hk'
    exact fun i b c d d' es es' hlt => next i b c d d' es es' (Nat.lt_succ_of_lt hlt)

end Backend

namespace Network

variable {m : Network α} {b c : Backend α} {p q : Place}

def values (m : Network α) (b : Backend α) (p : Place) : Array α := b.contents (m.handle p)

theorem Lowered.values_put (h : Lowered m) (hb : m.backend.SameLayout b) (hp : m.Has p)
    {data : Array α} (hs : data.size = (m.values b p).size) :
    m.backend.SameLayout (b.put (m.handle p) data) ∧
      m.values (b.put (m.handle p) data) p = data ∧
      ∀ q, m.Has q → q ≠ p → m.values (b.put (m.handle p) data) q = m.values b q := by
  obtain ⟨allocation, ha⟩ := h.arranged
  have hr := hb.resolves (ha.resolves hp)
  refine ⟨hb.put _ _, Backend.contents_put_self hr hs, fun q hq hne => ?_⟩
  exact Backend.contents_put_apart hr (hb.apart (ha.apart hp hq hne.symm)) hs

theorem Lowered.size_values (h : Lowered m) (hb : m.backend.SameLayout b) (hp : m.Has p)
    {t : Tensor} (ht : m.tensors[p.tensor]? = some t) :
    (m.values b p).size = t.shape.elements := by
  obtain ⟨allocation, ha⟩ := h.arranged
  obtain ⟨t', ht', hl, hlt⟩ := hp
  rw [ht] at ht'
  cases ht'
  exact ha.size_contents hb ht hl hlt

theorem Lowered.executes (h : Lowered m) (hb : m.backend.SameLayout b) {r : Request α}
    {d : Dispatch α} {k : HostKernel} {i : Nat} (he : Backend.Executes d b c)
    (hi : m.backend.Implements r d) (hk : HostKernel.ofName? r.kernel = some k)
    (hout : k.outputs = [i]) (harg : r.args[i]? = some (.buffer (m.handle p))) (hp : m.Has p) :
    ∃ data, k.run ⟨r.args.map b.operand, r.launch⟩ = .ok [(i, data)] ∧
      m.backend.SameLayout c ∧ m.values c p = data ∧
      ∀ q, m.Has q → q ≠ p → m.values c q = m.values b q := by
  have hkernels : b.kernels = m.backend.kernels := by rw [hb.same]
  obtain ⟨data, hrun, hsize, -, rfl⟩ := he.single hi hkernels hk hout harg
  exact ⟨data, hrun, h.values_put hb hp hsize⟩

end Network

end Backprop
