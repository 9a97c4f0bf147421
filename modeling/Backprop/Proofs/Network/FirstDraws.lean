import Mathlib
import Backprop.Proofs.Initializer
import Backprop.Proofs.Network.FirstValues

/-! How the last stage of a compilation comes out. It draws first values and does nothing else that
can fail, so that it fails only where values cannot be drawn, or where a loop that could end is cut
short. -/

namespace Backprop

variable {α : Type}

theorem sample_of_drawAll {requests : List (Shape × Initializer)} {g g' : Generator}
    {draws : List (Array Binary32)} (h : drawAll requests g = .ok (draws, g'))
    {q : Shape × Initializer} (hq : q ∈ requests) :
    ∃ g values g', q.2.sample q.1 g = .ok (values, g') := by
  induction requests generalizing g draws with
  | nil => cases hq
  | cons p requests ih =>
    obtain ⟨values, g₁, others, hs, hd, rfl⟩ := drawAll_cons_ok_iff.mp h
    obtain rfl | hq := List.mem_cons.mp hq
    · exact ⟨g, values, g₁, hs⟩
    · exact ih hd hq

namespace Network

variable [Scalar α] {b : Backend α} {config : NetworkConfig} {n m : Network α}
  {batch floor auxiliary : Nat} {allocation : Nat → Side → Nat}

/-! ### One draw after the other -/

theorem drawInitial_of_error {p : TensorId × Initializer} {e : Error} (hp : n.Settable p)
    (h : p.2.sample (n.shapeOf p.1) n.generator = .error e) :
    drawInitial p.1 p.2 n = .error e n := by
  obtain ⟨⟨t, ht, -⟩, -⟩ := hp
  rw [shapeOf_eq ht] at h
  have htensor : n.tensor p.1 = .ok t := tensor_ok_iff.mpr ht
  rw [drawInitial, Call.get_bind, htensor, Call.ofExcept_bind]
  simp only [h, Call.ofExcept_bind]

theorem Layout.drawInitial_of_sample {p : TensorId × Initializer} {values : Array Binary32}
    {g : Generator} (hl : Layout n.backend floor auxiliary n.tensors n.tensors.size allocation)
    (hp : n.Settable p) (h : p.2.sample (n.shapeOf p.1) n.generator = .ok (values, g)) :
    ∃ m, Network.drawInitial p.1 p.2 n = .ok ⟨⟩ m ∧ m.generator = g := by
  obtain ⟨⟨t, ht, hkind⟩, -⟩ := hp
  have hi := (Array.getElem?_eq_some_iff.mp ht).1
  have hforward := (hl.stored _ t hi ht).occupies .forward t.lives_forward
  -- a parameter has a single slot, and the cursor stands at it
  have hslot : t.currentSlot < t.forward.slots.size := by
    have hsize : t.forward.slots.size = t.slotCount := hforward.size
    rw [hsize]
    simp [Tensor.currentSlot, Tensor.slotCount, hkind, TensorKind.slotCount]
  obtain ⟨base, whole, hbase, -⟩ := hforward.base
  have hk : t.forwardBuffer .current = .ok t.forward.slots[t.currentSlot] :=
    Tensor.slot_ok_iff.mpr ⟨by rw [hbase]; rfl, Array.getElem?_eq_getElem hslot⟩
  obtain ⟨start, hr, hw⟩ := hl.slot hi ht t.lives_forward (part?_of_forwardBuffer hk)
  rw [shapeOf_eq ht] at h
  have hsize : (values.map (Scalar.ofWord (α := α))).size = t.shape.elements := by
    rw [Array.size_map, Initializer.size_sample h]
  exact ⟨_, drawInitial_ok_iff.mpr ⟨t, _, values, g, _, ht, hk, h, hr.write_ok hw hsize, rfl⟩, rfl⟩

/-- All draws succeed up to the first one that fails. -/
theorem Layout.drawInitials_outcome {l : List (TensorId × Initializer)}
    (hl : Layout n.backend floor auxiliary n.tensors n.tensors.size allocation)
    (settable : ∀ p ∈ l, n.Settable p) :
    (∃ m, l.forM (fun p => Network.drawInitial p.1 p.2) n = .ok ⟨⟩ m) ∨
      ∃ p ∈ l, ∃ g e m, p.2.sample (n.shapeOf p.1) g = .error e ∧
        drawAll (l.map fun p => (n.shapeOf p.1, p.2)) n.generator = .error e ∧
        l.forM (fun p => Network.drawInitial p.1 p.2) n = .error e m := by
  induction l generalizing n with
  | nil => exact .inl ⟨n, Call.forM_nil_ok_iff.mpr rfl⟩
  | cons p l ih =>
    have hp := settable p List.mem_cons_self
    cases hs : p.2.sample (n.shapeOf p.1) n.generator with
    | error e =>
      refine .inr ⟨p, List.mem_cons_self, n.generator, e, n, hs, ?_, ?_⟩
      · rw [List.map_cons, drawAll, hs]
        rfl
      · exact Call.bind_error_iff.mpr (.inl (drawInitial_of_error hp hs))
    | ok drawn =>
      obtain ⟨m, hm, hgenerator⟩ := hl.drawInitial_of_sample hp hs
      obtain ⟨hsame, hl', -⟩ := hl.drawInitial hm
      have htensors : m.tensors = n.tensors := by rw [hsame]
      have hshape : m.shapeOf = n.shapeOf := by
        funext x
        rw [shapeOf, shapeOf, htensors]
      have hsettable : m.Settable = n.Settable := by
        funext q
        rw [Settable, Settable, htensors, hshape]
      rw [← htensors] at hl'
      obtain ⟨m', hm'⟩ | ⟨q, hq, g, e, m', hs', hall, hm'⟩ := ih hl' fun q hq =>
        hsettable ▸ settable q (List.mem_cons_of_mem p hq)
      · exact .inl ⟨m', Call.forM_cons_ok_iff.mpr ⟨m, hm, hm'⟩⟩
      · rw [hshape, hgenerator] at hall
        refine .inr ⟨q, List.mem_cons_of_mem p hq, g, e, m', hshape ▸ hs', ?_, ?_⟩
        · simp only [List.map_cons, drawAll, hs, bind, Except.bind, hall]
        · exact Call.bind_error_iff.mpr (.inr ⟨⟨⟩, m, hm, hm'⟩)

/-- Whether a compilation comes to its last stage, and all first values can be drawn there. -/
theorem Prepared.outcome (h : Prepared n m) :
    (∃ m', drawInitials m = .ok ⟨⟩ m') ∨ ∃ p ∈ n.initializers, ∃ g e m',
      p.2.sample (n.shapeOf p.1) g = .error e ∧ drawAll n.initials n.generator = .error e ∧
        drawInitials m = .error e m' := by
  obtain ⟨floor, allocation, hl, -⟩ := h.layout
  have hdraws : drawInitials m = n.initializers.forM (fun p => drawInitial p.1 p.2) m := by
    rw [← h.initializers]
    rfl
  have hinitials : n.initials = n.initializers.map fun p => (m.shapeOf p.1, p.2) :=
    List.map_congr_left fun p hp => by rw [h.shapeOf p hp]
  rw [hdraws, hinitials, ← h.generator]
  obtain hok | ⟨p, hp, g, e, m', hs, hall, hfailed⟩ := hl.drawInitials_outcome h.settable
  · exact .inl hok
  · exact .inr ⟨p, hp, g, e, m', h.shapeOf p hp ▸ hs, hall, hfailed⟩

theorem Prepared.draws (h : Prepared n m) {draws : List (Array Binary32)} {g : Generator}
    (drawn : drawAll n.initials n.generator = .ok (draws, g)) :
    ∃ m', drawInitials m = .ok ⟨⟩ m' := by
  obtain hok | ⟨p, -, g, e, m', -, hall, -⟩ := h.outcome
  · exact hok
  · cases drawn.symm.trans hall

theorem Prepared.room (h : Prepared n m) {p : TensorId × Initializer} (hp : p ∈ n.initializers) :
    (n.shapeOf p.1).elements * 4 ≤ sequenceLimit := by
  rw [← h.shapeOf p hp]
  exact (h.settable p hp).2

theorem Prepared.sample_error (h : Prepared n m) (hn : Outline b n) {p : TensorId × Initializer}
    (hp : p ∈ n.initializers) (undrawable : ¬p.2.Drawable) :
    ∃ f, (f = .unboundedRange ∨ f = .endlessRedraw) ∧
      ∀ g, p.2.sample (n.shapeOf p.1) g = .error (.fault f) := by
  obtain ⟨u, hu, -, hpos⟩ := hn.initializer hp
  have hn : (n.shapeOf p.1).elements ≠ 0 := by
    rw [shapeOf_eq hu]
    exact hpos.ne'
  have room := h.room hp
  by_cases bounded : p.2.Bounded
  · have hrejects : ∃ r ∈ p.2.redraw? (n.shapeOf p.1), ∀ g, ¬r.Accepts g := by
      by_contra hnot
      push Not at hnot
      exact undrawable ((Initializer.drawable_iff p.2 (n.shapeOf p.1)).mpr ⟨bounded, hnot⟩)
    obtain ⟨r, hr, rejecting⟩ := hrejects
    exact ⟨.endlessRedraw, .inr rfl,
      fun g => Initializer.sample_of_rejecting hr bounded rejecting hn room⟩
  · exact ⟨.unboundedRange, .inl rfl, fun g => Initializer.sample_of_not_bounded bounded hn room⟩

/-- A compilation that comes to its last stage draws all first values, unless some of them cannot be
drawn: then it fails. Values can be drawn exactly where the range that they are from is of finite
width, and the loop that they are from accepts a value of some generator. -/
theorem Assembled.compile_draws (idle : b.Idle) (built : Assembled (Network.new b config) n)
    (h : prepare (max batch 1) n = .ok ⟨⟩ m) :
    (∀ p ∈ n.initializers, p.2.Drawable ↔ p.2.Bounded ∧
      ∀ r ∈ p.2.redraw? (n.shapeOf p.1), ∃ g, r.Accepts g) ∧
    ((∀ p ∈ n.initializers, p.2.Drawable) →
      (∃ m' draws, compile batch n = .ok ⟨⟩ m' ∧
        List.Forall₂ (fun p values => values.size = (n.shapeOf p.1).elements) n.initializers draws ∧
        m'.Initialized n.auxiliaryCount n.initializers draws) ∨
      (∃ m', compile batch n = .error (.fault .endlessRedraw) m') ∧
        ∃ p ∈ n.initializers, ∃ r ∈ p.2.redraw? (n.shapeOf p.1), ∃ g,
          ∀ k < redrawLimit, ¬r.Accepts (r.after k g)) ∧
    ((∃ p ∈ n.initializers, ¬p.2.Drawable) →
      ∃ f m', (f = .unboundedRange ∨ f = .endlessRedraw) ∧
        compile batch n = .error (.fault f) m') := by
  have hn := built.outline
  have idle' : Backend.Idle { b with validation := config.validate } :=
    ⟨idle.dispatches, idle.sound⟩
  have stage : n.stage = .building := by
    obtain ⟨ts, more, long, o, inits, rfl⟩ := built.grown
    rfl
  have hm := prepare_ok hn idle' h
  refine ⟨fun p _ => Initializer.drawable_iff p.2 _, fun drawable => ?_, ?_⟩
  · obtain ⟨m', hd⟩ | ⟨p, hp, g, e, m', hs, -, hd⟩ := hm.outcome
    · have hcompile := compile_ok_iff_draws.mpr ⟨stage, m, m', h, hd, rfl⟩
      obtain ⟨draws, g, hdraws, hinit⟩ := compile_initialized hn idle' hcompile
      have hsizes := size_drawAll hdraws
      rw [initials, List.forall₂_map_left_iff] at hsizes
      exact .inl ⟨_, draws, hcompile, hsizes, hinit⟩
    · have hcompile := compile_of_failed_draws stage h hd
      obtain ⟨values, g', hok⟩ | ⟨hendless, hrejects⟩ :=
        Initializer.sample_of_drawable (g := g) (drawable p hp) (hm.room hp)
      · cases hok.symm.trans hs
      · cases hendless.symm.trans hs
        exact .inr ⟨⟨_, hcompile⟩, p, hp, hrejects⟩
  · rintro ⟨p, hp, undrawable⟩
    obtain ⟨m', hd⟩ | ⟨q, hq, g, e, m', hs, -, hd⟩ := hm.outcome
    · -- the draws of a compilation that succeeds would include one from this parameter
      have hcompile := compile_ok_iff_draws.mpr ⟨stage, m, m', h, hd, rfl⟩
      obtain ⟨draws, g, hdraws, -⟩ := compile_initialized hn idle' hcompile
      obtain ⟨g', values, g'', hok⟩ := sample_of_drawAll hdraws
        (List.mem_map_of_mem (f := fun p => (n.shapeOf p.1, p.2)) hp)
      obtain ⟨f, -, herror⟩ := hm.sample_error hn hp undrawable
      cases hok.symm.trans (herror g')
    · have hcompile := compile_of_failed_draws stage h hd
      by_cases hdrawable : q.2.Drawable
      · obtain ⟨values, g', hok⟩ | ⟨hendless, -⟩ :=
          Initializer.sample_of_drawable (g := g) hdrawable (hm.room hq)
        · cases hok.symm.trans hs
        · cases hendless.symm.trans hs
          exact ⟨.endlessRedraw, _, .inr rfl, hcompile⟩
      · obtain ⟨f, hf, herror⟩ := hm.sample_error hn hq hdrawable
        cases (herror g).symm.trans hs
        exact ⟨f, _, hf, hcompile⟩

/-- A parameter of one element with a first value from a range. -/
def rangedWeight (low high : Binary32) : Network Binary32 :=
  (Network.new Backend.host {}).draft
    [.createParameter ⟨1, 1, 1, 1⟩ 1, .initWeight ⟨0⟩ (.uniform low high)]

set_option maxRecDepth 100000 in
theorem rangedWeight_draws : ∃ m f m',
    prepare 1 (rangedWeight ⟨0xff61b1e6⟩ ⟨0x7f61b1e6⟩) = .ok ⟨⟩ m ∧
    (f = .unboundedRange ∨ f = .endlessRedraw) ∧
    compile 1 (rangedWeight ⟨0xff61b1e6⟩ ⟨0x7f61b1e6⟩) = .error (.fault f) m' := by
  have hm : prepare 1 (rangedWeight ⟨0xff61b1e6⟩ ⟨0x7f61b1e6⟩) =
      .ok ⟨⟩ (Call.after (prepare 1) (rangedWeight ⟨0xff61b1e6⟩ ⟨0x7f61b1e6⟩)) :=
    Call.ok_of_isOk (by decide +kernel)
  have hinits : (rangedWeight ⟨0xff61b1e6⟩ ⟨0x7f61b1e6⟩).initializers =
      [(⟨0⟩, .uniform ⟨0xff61b1e6⟩ ⟨0x7f61b1e6⟩)] := by decide +kernel
  have hwide : (⟨0x7f61b1e6⟩ - ⟨0xff61b1e6⟩ : Binary32).isFinite = false := by decide +kernel
  have hmax : prepare (max 1 1) (rangedWeight ⟨0xff61b1e6⟩ ⟨0x7f61b1e6⟩) = .ok ⟨⟩ _ := hm
  obtain ⟨-, -, hfails⟩ := Assembled.compile_draws Backend.host_idle (.draft .start _) hmax
  obtain ⟨f, m', hf, hcompile⟩ := hfails ⟨_, hinits ▸ List.mem_singleton_self _, fun hdrawable => by
    have hfinite := hdrawable (by decide +kernel)
    exact Bool.false_ne_true (hwide.symm.trans hfinite)⟩
  exact ⟨_, f, m', hm, hf, hcompile⟩

set_option maxRecDepth 100000 in
/-- Initializers that are accepted and whose values cannot be drawn: a range that is too wide for
its width to be a number, and a spread below zero. -/
theorem undrawable_values :
    ((rangedWeight ⟨0xff61b1e6⟩ ⟨0x7f61b1e6⟩).initializers =
        [(⟨0⟩, .uniform ⟨0xff61b1e6⟩ ⟨0x7f61b1e6⟩)] ∧
      ∃ m, compile 1 (rangedWeight ⟨0xff61b1e6⟩ ⟨0x7f61b1e6⟩) = .error (.fault .unboundedRange) m) ∧
    ∀ g : Generator, Generator.isNear 0 ⟨0xbf800000⟩ (g.normal 0 ⟨0xbf800000⟩).1 = false := by
  refine ⟨⟨by decide +kernel, ?_⟩, fun g => ?_⟩
  · exact ⟨_, Call.error_of_error? (by decide +kernel)⟩
  · exact Generator.not_isNear (fun h => absurd h.2 (by decide +kernel)) _

end Network

end Backprop
