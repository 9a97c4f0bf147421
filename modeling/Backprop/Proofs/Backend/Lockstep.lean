import Mathlib
import Backprop.Proofs.Lockstep
import Backprop.Proofs.Backend.Run
import Backprop.Proofs.Backend.Transfer

/-! Two backends that differ in the contents of some allocations, run in lockstep: each dispatch
fails on both or succeeds on both, and nothing but these allocations ever differs. -/

namespace Backprop

variable {α : Type}

namespace Device

theorem window_congr {d e : Device α} (hs : e.sizes = d.sizes) (allocation offset length : Nat) :
    e.window allocation offset length = d.window allocation offset length := by
  have hsize : (e.memory[allocation]?).map (·.size) = (d.memory[allocation]?).map (·.size) := by
    rw [← Array.getElem?_map, ← Array.getElem?_map]
    exact congrArg (·[allocation]?) hs
  unfold window
  split
  · rfl
  · cases he : e.memory[allocation]? with
    | none =>
      rw [he, Option.map_none, eq_comm, Option.map_eq_none_iff] at hsize
      rw [hsize]
    | some words =>
      rw [he, Option.map_some, eq_comm, Option.map_eq_some_iff] at hsize
      obtain ⟨words', hd, hsize⟩ := hsize
      rw [hd]
      simp only [hsize]

end Device

namespace Kernel

/-- The kernel changes argument `i` alone, and the first words that it puts there do not depend
on what was there before. -/
def Fills (k : Kernel α) (o : Operands α) (i n : Nat) : Prop :=
  ∀ x y, o.args[i]? = some (.words x) → y.size = x.size →
    Except.Alike (fun ws ws' => ∃ d d', ws = [(i, d)] ∧ ws' = [(i, d')] ∧ SameFirst n d d')
      (k o) (k { o with args := o.args.set i (.words y) })

/-- The kernel takes no notice of argument `i` past its first words. -/
def ReadsFirst (k : Kernel α) (o : Operands α) (i n : Nat) : Prop :=
  ∀ x y, o.args[i]? = some (.words x) → SameFirst n x y →
    k { o with args := o.args.set i (.words y) } = k o

end Kernel

namespace Backend

variable {A : Nat → Prop} {b b₀ c : Backend α}

/-- Nothing has changed but contents and what dispatches count. -/
structure Later (b₀ b : Backend α) : Prop where
  same : b = { b₀ with device := b.device, dispatches := b.dispatches }
  sizes : b.device.sizes = b₀.device.sizes

theorem Later.trans (h : b₀.Later b) (h' : b.Later c) : b₀.Later c :=
  ⟨by rw [h'.same, h.same], h'.sizes.trans h.sizes⟩

theorem Later.buffers (h : b₀.Later b) : b.buffers = b₀.buffers := by rw [h.same]

theorem Later.kernels (h : b₀.Later b) : b.kernels = b₀.kernels := by rw [h.same]

/-- The buffer lies in none of the allocations. -/
def Avoids (b : Backend α) (A : Nat → Prop) (h : BufferId) : Prop :=
  ∀ w, b.window? h = some w → ¬A w.allocation

/-- The buffer lies in one of the allocations. -/
def LiesIn (b : Backend α) (A : Nat → Prop) (h : BufferId) : Prop :=
  ∀ w, b.window? h = some w → A w.allocation

theorem bind_congr (hb : c.buffers = b.buffers) : c.bind = b.bind := by
  funext arg
  cases arg with
  | buffer h => rw [bind, bind, buffer, buffer, hb]
  | scalar s => rfl
  | blob bytes => rfl

theorem gather_alike (hs : c.device.sizes = b.device.sizes) (x : Binding α) :
    Except.Alike (fun _ _ => True) (b.device.gather x) (c.device.gather x) := by
  cases x with
  | buffer allocation offset length =>
    rw [Device.gather, Device.gather, Device.window_congr hs]
    exact .bind_left fun _ _ => trivial
  | scalar s => trivial
  | blob bytes => trivial

theorem Touches.put (h : b.Touches c A) (k : BufferId) (data : Array α) :
    (b.put k data).Touches (c.put k data) A := by
  refine ⟨?_, by rw [sizes_put, sizes_put, h.sizes], fun a ha => ?_⟩
  · have hb := put_same b k data
    have hc := put_same c k data
    unfold SameButDevice at *
    rw [hc, h.same, hb]
  · unfold Backend.put
    rw [window?_congr h.buffers]
    cases b.window? k with
    | none => exact h.memory a ha
    | some w =>
      simp only [Device.store, Array.getElem?_modify, h.memory a ha]

theorem Touches.put_within (h : b.Touches c A) {k : BufferId} (hk : b.LiesIn A k)
    (data data' : Array α) : (b.put k data).Touches (c.put k data') A := by
  refine ⟨?_, by rw [sizes_put, sizes_put, h.sizes], fun a ha => ?_⟩
  · have hb := put_same b k data
    have hc := put_same c k data'
    unfold SameButDevice at *
    rw [hc, h.same, hb]
  · unfold Backend.put
    rw [window?_congr h.buffers]
    cases hw : b.window? k with
    | none => exact h.memory a ha
    | some w =>
      have hne : w.allocation ≠ a := fun heq => ha (heq ▸ hk w hw)
      simp only [Device.store, Array.getElem?_modify, if_neg hne, h.memory a ha]

theorem Touches.putBack (h : b.Touches c A) (args : List (KernelArg α)) (change : Nat × Array α) :
    (Backend.putBack args b change).Touches (Backend.putBack args c change) A := by
  unfold Backend.putBack
  split
  · exact h.put _ _
  · exact h

theorem Touches.foldl_putBack (h : b.Touches c A) (args : List (KernelArg α)) (ws : Writes α) :
    (ws.foldl (Backend.putBack args) b).Touches (ws.foldl (Backend.putBack args) c) A := by
  induction ws generalizing b c with
  | nil => exact h
  | cons w ws ih => exact ih (h.putBack args w)

theorem Touches.operand (h : b.Touches c A) {arg : KernelArg α}
    (ha : ∀ k, arg = .buffer k → b.Avoids A k) : c.operand arg = b.operand arg := by
  cases arg with
  | buffer k =>
    cases hw : b.window? k with
    | none =>
      rw [Backend.operand, Backend.operand, Backend.contents, Backend.contents,
        window?_congr h.buffers, hw]
    | some w => rw [Backend.operand, Backend.operand, h.contents hw (ha k rfl w hw)]
  | scalar s => rfl
  | blob bytes => rfl

theorem Touches.operands_set (h : b.Touches c A) {args : List (KernelArg α)} {i : Nat}
    {k : BufferId} (hi : args[i]? = some (.buffer k))
    (others : ∀ j l, j ≠ i → args[j]? = some (.buffer l) → b.Avoids A l) :
    args.map c.operand = (args.map b.operand).set i (.words (c.contents k)) := by
  refine List.ext_getElem? fun j => ?_
  rw [List.getElem?_set, List.getElem?_map, List.getElem?_map]
  by_cases hj : i = j
  · subst hj
    have hlt := (List.getElem?_eq_some_iff.mp hi).1
    rw [if_pos rfl, if_pos (by simpa using hlt), hi]
    rfl
  · rw [if_neg hj]
    cases ha : args[j]? with
    | none => rfl
    | some arg =>
      rw [Option.map_some, Option.map_some, h.operand fun l hl => others j l (Ne.symm hj)
        (hl ▸ ha)]

variable [Scalar α]

theorem Touches.execute (h : b.Touches c A) {d : Dispatch α} {W : Writes α → Writes α → Prop}
    {R : Device α → Device α → Prop}
    (run : ∀ compiled, b.kernels[d.kernel.index]? = some compiled →
      (∀ k, .buffer k ∈ d.args → b.Resolves k) →
      Except.Alike W (compiled.kernel.run ⟨d.args.map b.operand, d.launch⟩)
        (compiled.kernel.run ⟨d.args.map c.operand, d.launch⟩))
    (done : ∀ ws ws', W ws ws' → (∀ k, .buffer k ∈ d.args → b.Resolves k) →
      R (ws.foldl (Backend.putBack d.args) b).device
        (ws'.foldl (Backend.putBack d.args) c).device) :
    Except.Alike R (b.execute d) (c.execute d) := by
  have hkernels : c.kernels = b.kernels := by rw [h.same]
  unfold Backend.execute
  rw [hkernels]
  cases hk : b.kernels[d.kernel.index]? with
  | none => exact rfl
  | some compiled =>
    simp only
    rw [bind_congr h.buffers]
    refine .bind_left fun bindings hbind => .mapError ?_
    unfold Device.launch
    refine (Except.Alike.mapM fun x _ => gather_alike h.sizes x).bind fun g g' hg hg' _ => ?_
    have hbind' : d.args.mapM c.bind = .ok bindings := by rw [bind_congr h.buffers, hbind]
    obtain ⟨hr, rfl⟩ := gather_args_ok_iff.mp ⟨bindings, hbind, hg⟩
    obtain ⟨-, rfl⟩ := gather_args_ok_iff.mp ⟨bindings, hbind', hg'⟩
    have hrun := run compiled hk hr
    simp only [List.map_map, Function.comp_def, bound_fst]
    refine hrun.bind fun ws ws' _ _ hw => ?_
    have hfold := foldl_putBack_windows b d.args b.device ws
    have hfold' := foldl_putBack_windows c d.args c.device ws'
    simp only [List.map_map, Function.comp_def] at hfold hfold'
    refine Except.Alike.pure ?_
    rw [hfold, hfold']
    exact done ws ws' hw hr

/-! ### Runs -/

/-- Two later states of a backend that differ in some of the allocations at most, and not in the
first words of some of the buffers there. -/
structure Paired (b₀ : Backend α) (A : Nat → Prop) (T : List (BufferId × Nat))
    (b c : Backend α) : Prop where
  later : b₀.Later b
  touches : b.Touches c A
  agree : ∀ p ∈ T, SameFirst p.2 (b.contents p.1) (c.contents p.1)

/-- The dispatch keeps two states paired, whatever else they hold. -/
def Carries (b₀ : Backend α) (A : Nat → Prop) (T T' : List (BufferId × Nat)) (d : Dispatch α) :
    Prop :=
  ∀ b c, b₀.Paired A T b c → Except.Alike (fun x y => b₀.Paired A T' { b with device := x }
    { c with device := y }) (b.execute d) (c.execute d)

/-- Dispatches that keep two states paired when they are played one after the other. -/
def Shielded (b₀ : Backend α) (A : Nat → Prop) :
    List (BufferId × Nat) → List (Dispatch α) → Prop
  | _, [] => True
  | T, d :: ds => ∃ T', b₀.Carries A T T' d ∧ Shielded b₀ A T' ds

variable {T : List (BufferId × Nat)}

omit [Scalar α] in
theorem Paired.forget (h : b₀.Paired A T b c) : b₀.Paired A [] b c :=
  ⟨h.later, h.touches, by simp⟩

theorem Shielded.append {ds es : List (Dispatch α)} (h : b₀.Shielded A T ds)
    (h' : b₀.Shielded A [] es) : b₀.Shielded A T (ds ++ es) := by
  induction ds generalizing T with
  | nil =>
    cases es with
    | nil => trivial
    | cons d es =>
      obtain ⟨T', hd, hes⟩ := h'
      exact ⟨T', fun b c hp => hd b c hp.forget, hes⟩
  | cons d ds ih =>
    obtain ⟨T', hd, hds⟩ := h
    exact ⟨T', hd, ih hds⟩

theorem Shielded.of_forall {ds : List (Dispatch α)} (h : ∀ d ∈ ds, b₀.Carries A [] [] d) :
    b₀.Shielded A [] ds := by
  induction ds with
  | nil => trivial
  | cons d ds ih =>
    exact ⟨[], h d List.mem_cons_self, ih fun e he => h e (List.mem_cons_of_mem _ he)⟩

omit [Scalar α] in
theorem Paired.after (h : b₀.Paired A T b c) {b' c' : Backend α} {T' : List (BufferId × Nat)}
    (hb : b.SameButDevice b') (hs : b'.device.sizes = b.device.sizes) (ht : b'.Touches c' A)
    (agree : ∀ p ∈ T', SameFirst p.2 (b'.contents p.1) (c'.contents p.1)) :
    b₀.Paired A T' { b with device := b'.device } { c with device := c'.device } := by
  have hc : c' = { c with device := c'.device } := by
    have hsame := ht.same
    have hsame' := h.touches.same
    unfold SameButDevice at *
    rw [hsame, hb, hsame']
  have hb' : b' = { b with device := b'.device } := hb
  rw [← hb', ← hc]
  refine ⟨⟨?_, hs.trans h.later.sizes⟩, ht, agree⟩
  rw [hb', h.later.same]

theorem carries_of_avoids {d : Dispatch α} (h : ∀ k, .buffer k ∈ d.args → b₀.Avoids A k) :
    b₀.Carries A T [] d := by
  intro b c hp
  have havoid : ∀ k, .buffer k ∈ d.args → b.Avoids A k := fun k hk w hw =>
    h k hk w (by rwa [window?_congr hp.later.buffers] at hw)
  have hops : d.args.map c.operand = d.args.map b.operand :=
    List.map_congr_left fun arg harg => hp.touches.operand fun k hk => havoid k (hk ▸ harg)
  refine hp.touches.execute (W := (· = ·)) (fun compiled _ _ => hops ▸ .of_eq rfl fun _ _ => rfl) ?_
  rintro ws _ rfl -
  exact hp.after (foldl_putBack_same d.args b ws) (sizes_foldl_putBack d.args b ws)
    (hp.touches.foldl_putBack d.args ws) (by simp)

theorem carries_of_fills {d : Dispatch α} {i n : Nat} {k : BufferId}
    (hi : d.args[i]? = some (.buffer k)) (hk : b₀.LiesIn A k)
    (others : ∀ j l, j ≠ i → d.args[j]? = some (.buffer l) → b₀.Avoids A l)
    (fills : ∀ compiled, b₀.kernels[d.kernel.index]? = some compiled → ∀ b : Backend α,
      Kernel.Fills compiled.kernel.run ⟨d.args.map b.operand, d.launch⟩ i n) :
    b₀.Carries A T [(k, n)] d := by
  intro b c hp
  have hk' : b.LiesIn A k := fun w hw => hk w (by rwa [window?_congr hp.later.buffers] at hw)
  have hops := hp.touches.operands_set hi fun j l hj hl w hw =>
    others j l hj hl w (by rwa [window?_congr hp.later.buffers] at hw)
  have harg : (d.args.map b.operand)[i]? = some (.words (b.contents k)) := by
    rw [List.getElem?_map, hi]
    rfl
  refine hp.touches.execute (W := fun ws ws' => ∃ x y, ws = [(i, x)] ∧ ws' = [(i, y)] ∧
    SameFirst n x y ∧ x.size = (b.contents k).size) (fun compiled hcompiled hr => ?_) ?_
  · have hres := hr k (List.mem_of_getElem? hi)
    rw [hops]
    refine (fills compiled (hp.later.kernels ▸ hcompiled) b _ _ harg
      (size_contents_congr hres hp.touches.buffers hp.touches.sizes)).mono ?_
    rintro ws ws' hws - ⟨x, y, rfl, rfl, hxy⟩
    obtain ⟨-, hsize⟩ := HostKernel.run_changes hws
    obtain ⟨old, hold, hlen⟩ := hsize _ List.mem_cons_self
    rw [harg] at hold
    cases hold
    exact ⟨x, y, rfl, rfl, hxy, hlen⟩
  · rintro _ _ ⟨x, y, rfl, rfl, hxy, hsize⟩ hr
    have hres := hr k (List.mem_of_getElem? hi)
    have hres' := hres.congr hp.touches.buffers hp.touches.sizes
    have hsize' : y.size = (c.contents k).size := by
      rw [hxy.1, hsize, size_contents_congr hres hp.touches.buffers hp.touches.sizes]
    have hput : ∀ (e : Backend α) z, [(i, z)].foldl (putBack d.args) e = e.put k z := by
      intro e z
      simp only [List.foldl_cons, List.foldl_nil, putBack, hi]
    rw [hput, hput]
    refine hp.after (put_same b k x) (sizes_put b k x) (hp.touches.put_within hk' x y) ?_
    intro p hmem
    rw [List.mem_singleton.mp hmem]
    simp only [contents_put_self hres hsize, contents_put_self hres' hsize']
    exact hxy

theorem carries_of_reads {d : Dispatch α} {i n : Nat} {k : BufferId}
    (hi : d.args[i]? = some (.buffer k))
    (others : ∀ j l, j ≠ i → d.args[j]? = some (.buffer l) → b₀.Avoids A l)
    (reads : ∀ compiled, b₀.kernels[d.kernel.index]? = some compiled → ∀ b : Backend α,
      Kernel.ReadsFirst compiled.kernel.run ⟨d.args.map b.operand, d.launch⟩ i n) :
    b₀.Carries A [(k, n)] [] d := by
  intro b c hp
  have hops := hp.touches.operands_set hi fun j l hj hl w hw =>
    others j l hj hl w (by rwa [window?_congr hp.later.buffers] at hw)
  have harg : (d.args.map b.operand)[i]? = some (.words (b.contents k)) := by
    rw [List.getElem?_map, hi]
    rfl
  refine hp.touches.execute (W := (· = ·)) (fun compiled hcompiled _ => ?_) ?_
  · refine .of_eq ?_ fun _ _ => rfl
    rw [hops]
    exact (reads compiled (hp.later.kernels ▸ hcompiled) b _ _ harg
      (hp.agree _ List.mem_cons_self)).symm
  · rintro ws _ rfl -
    exact hp.after (foldl_putBack_same d.args b ws) (sizes_foldl_putBack d.args b ws)
      (hp.touches.foldl_putBack d.args ws) (by simp)

omit [Scalar α] in
theorem Paired.withDispatches (h : b₀.Paired A T b c) (ds : PerPass (Array (Dispatch α))) :
    b₀.Paired A T { b with dispatches := ds } { c with dispatches := ds } := by
  refine ⟨⟨?_, h.later.sizes⟩, ⟨?_, h.touches.sizes, h.touches.memory⟩, h.agree⟩
  · rw [h.later.same]
  · rw [SameButDevice, h.touches.same]

theorem play_eq {pass : Pass} {position : Nat} {d : Dispatch α}
    (hd : (b.dispatches.get pass)[position]? = some d) :
    play pass position b = match b.execute d with
      | .ok device => .ok ⟨⟩ { b with
          device
          dispatches := b.dispatches.modify pass (·.modify position (·.afterRun)) }
      | .error e => .error e b := by
  rw [play]
  change EStateM.bind EStateM.get _ b = _
  simp only [EStateM.bind, EStateM.get, hd]
  cases b.execute d <;> rfl

theorem forM_play_alike {pass : Pass} {positions : List Nat} {ds : List (Dispatch α)}
    (once : positions.Nodup) (hp : b₀.Paired A T b c)
    (hds : List.Forall₂ (fun p d => (b.dispatches.get pass)[p]? = some d) positions ds)
    (hs : b₀.Shielded A T ds) :
    Call.Alike (b₀.Paired A []) (positions.forM (play pass) b) (positions.forM (play pass) c) := by
  induction positions generalizing b c T ds with
  | nil => exact .ok hp.forget
  | cons p positions ih =>
    obtain ⟨d, ds, hd, hrest, rfl⟩ := List.forall₂_cons_left_iff.mp hds
    obtain ⟨T', hcarry, hs⟩ := hs
    obtain ⟨hnot, once⟩ := List.nodup_cons.mp once
    have hd' : (c.dispatches.get pass)[p]? = some d := by rw [hp.touches.same]; exact hd
    have hexec := hcarry b c hp
    have hrun : ∀ e : Backend α, (p :: positions).forM (play pass) e =
        match play pass p e with
        | .ok _ e' => positions.forM (play pass) e'
        | .error x e' => .error x e' := by
      intro e
      change EStateM.bind (play pass p) (fun _ => positions.forM (play pass)) e = _
      rw [EStateM.bind]
      cases play pass p e <;> rfl
    rw [hrun, hrun, play_eq hd, play_eq hd']
    cases hb : b.execute d with
    | error x =>
      cases hc : c.execute d with
      | error y =>
        rw [hb, hc] at hexec
        obtain rfl : x = y := hexec
        exact .error hp.forget
      | ok dev =>
        rw [hb, hc] at hexec
        exact hexec.elim
    | ok dev =>
      cases hc : c.execute d with
      | error y =>
        rw [hb, hc] at hexec
        exact hexec.elim
      | ok dev' =>
        rw [hb, hc] at hexec
        have hlists : c.dispatches = b.dispatches := by rw [hp.touches.same]
        simp only [hlists]
        -- the dispatches still to be played stand at other positions
        have hrest' : List.Forall₂ (fun q e => ((b.dispatches.modify pass
            (·.modify p (·.afterRun))).get pass)[q]? = some e) positions ds := by
          rw [List.forall₂_iff_get] at hrest ⊢
          refine ⟨hrest.1, fun i h₁ h₂ => ?_⟩
          have hne : p ≠ positions.get ⟨i, h₁⟩ := fun he => hnot (he ▸ List.get_mem positions _)
          rw [PerPass.get_modify_self, Array.getElem?_modify, if_neg hne, hrest.2 i h₁ h₂]
        exact ih once (Paired.withDispatches hexec _) hrest' hs

/-- A pass in lockstep. -/
theorem run_alike {pass : Pass} (hp : b₀.Paired A [] b c)
    (hs : b₀.Shielded A [] (inPlayOrder pass (b.dispatches.get pass).toList)) :
    Call.Alike (b₀.Paired A []) (run pass b) (run pass c) := by
  have hlists : c.dispatches = b.dispatches := by rw [hp.touches.same]
  have hrun : ∀ e : Backend α, run pass e =
      (playOrder pass (e.dispatches.get pass).size).forM (play pass) e := fun e => rfl
  rw [hrun, hrun, hlists]
  have hrange : List.Forall₂ (fun p d => (b.dispatches.get pass)[p]? = some d)
      (List.range (b.dispatches.get pass).size) (b.dispatches.get pass).toList := by
    rw [List.forall₂_iff_get]
    refine ⟨by simp, fun i h₁ h₂ => ?_⟩
    have hlt : i < (b.dispatches.get pass).size := by simpa using h₂
    simp [hlt]
  refine forM_play_alike ?_ hp ?_ hs
  · cases pass with
    | backward => exact List.nodup_reverse.mpr List.nodup_range
    | forward => exact List.nodup_range
    | update => exact List.nodup_range
  · cases pass with
    | backward => exact List.rel_reverse hrange
    | forward => exact hrange
    | update => exact hrange

end Backend

end Backprop
