import Mathlib
import Backprop.Proofs.Network.Parts
import Backprop.Proofs.Network.Preparation
import Backprop.Proofs.Network.Reading

/-! What a network holds once it is compiled: zeros, but for the parameters that have been given
first values. These come from one generator, in the order in which they were asked for. -/

namespace Backprop

def drawAll : List (Shape × Initializer) → Generator →
    Except Error (List (Array Binary32) × Generator)
  | [], g => .ok ([], g)
  | (shape, init) :: rest, g => do
    let (values, g) ← init.sample shape g
    let (draws, g) ← drawAll rest g
    return (values :: draws, g)

theorem drawAll_cons_ok_iff {shape : Shape} {init : Initializer}
    {rest : List (Shape × Initializer)} {g g' : Generator} {draws : List (Array Binary32)} :
    drawAll ((shape, init) :: rest) g = .ok (draws, g') ↔ ∃ values g₁ others,
      init.sample shape g = .ok (values, g₁) ∧ drawAll rest g₁ = .ok (others, g') ∧
        draws = values :: others := by
  simp only [drawAll, Except.bind_ok_iff, Except.pure_ok_iff, Prod.mk.injEq]
  constructor
  · rintro ⟨⟨values, g₁⟩, hs, ⟨others, _⟩, hd, rfl, rfl⟩
    exact ⟨values, g₁, others, hs, hd, rfl⟩
  · rintro ⟨values, g₁, others, hs, hd, rfl⟩
    exact ⟨(values, g₁), hs, (others, g'), hd, rfl, rfl⟩

theorem Generator.size_drawMany {draw : Generator → Except Error (Binary32 × Generator)}
    {count : Nat} {drawn values : Array Binary32} {g g' : Generator}
    (h : drawMany draw count drawn g = .ok (values, g')) : values.size = drawn.size + count := by
  induction count generalizing drawn g with
  | zero =>
    cases h
    rfl
  | succ count ih =>
    rw [drawMany] at h
    split at h
    · rw [ih h, Array.size_push]
      omega
    · cases h

theorem Initializer.size_sample {init : Initializer} {shape : Shape} {g g' : Generator}
    {values : Array Binary32} (h : init.sample shape g = .ok (values, g')) :
    values.size = shape.elements := by
  unfold sample at h
  obtain ⟨⟨⟩, -, h⟩ := Except.bind_ok_iff.mp h
  have hmany : ∀ {draw : Generator → Except Error (Binary32 × Generator)},
      Generator.drawMany draw shape.elements #[] g = .ok (values, g') →
        values.size = shape.elements := by
    intro draw hd
    rw [Generator.size_drawMany hd, Array.size_empty, Nat.zero_add]
  cases init with
  | constant value =>
    cases h
    exact Array.size_replicate
  | uniform low high =>
    simp only at h
    split at h
    · exact hmany h
    · cases h
      exact Array.size_replicate
  | normal mean stddev => exact hmany h
  | truncated mean stddev => exact hmany h
  | xavier mean => exact hmany h

theorem size_drawAll {requests : List (Shape × Initializer)} {g g' : Generator}
    {draws : List (Array Binary32)} (h : drawAll requests g = .ok (draws, g')) :
    List.Forall₂ (fun p values => values.size = p.1.elements) requests draws := by
  induction requests generalizing g draws with
  | nil =>
    cases h
    exact .nil
  | cons p requests ih =>
    obtain ⟨values, g₁, others, hs, hd, rfl⟩ := drawAll_cons_ok_iff.mp h
    exact .cons (Initializer.size_sample hs) (ih hd)

/-- The last values that were drawn for a tensor. -/
def lastDrawn (id : TensorId) (inits : List (TensorId × Initializer))
    (draws : List (Array Binary32)) : Option (Array Binary32) :=
  ((inits.zip draws).filter (·.1.1 = id)).getLast?.map (·.2)

theorem lastDrawn_cons (id : TensorId) (p : TensorId × Initializer)
    (inits : List (TensorId × Initializer)) (values : Array Binary32)
    (draws : List (Array Binary32)) :
    lastDrawn id (p :: inits) (values :: draws) =
      (lastDrawn id inits draws <|> if p.1 = id then some values else none) := by
  unfold lastDrawn
  rw [List.zip_cons_cons, List.filter_cons]
  by_cases h : p.1 = id
  · simp only [h, decide_true, if_true, List.getLast?_cons]
    cases ((inits.zip draws).filter (·.1.1 = id)).getLast? <;> rfl
  · simp [h]

theorem lastDrawn_eq_none {id : TensorId} {inits : List (TensorId × Initializer)}
    (draws : List (Array Binary32)) (h : ∀ p ∈ inits, p.1 ≠ id) :
    lastDrawn id inits draws = none := by
  have hnone : (inits.zip draws).filter (·.1.1 = id) = [] := by
    refine List.filter_eq_nil_iff.mpr fun q hq => ?_
    simpa using h q.1 (List.of_mem_zip hq).1
  rw [lastDrawn, hnone]
  rfl

theorem lastDrawn_rename {f : TensorId → TensorId} (hf : f.Injective) (id : TensorId)
    (inits : List (TensorId × Initializer)) (draws : List (Array Binary32)) :
    lastDrawn (f id) (inits.map fun p => (f p.1, p.2)) draws = lastDrawn id inits draws := by
  induction inits generalizing draws with
  | nil => rfl
  | cons p inits ih =>
    cases draws with
    | nil => rfl
    | cons values draws =>
      rw [List.map_cons, lastDrawn_cons, lastDrawn_cons, ih]
      simp only [hf.eq_iff]

variable {α : Type}

theorem Backend.Resolves.size_contents {b : Backend α} {h : BufferId} {w : Window}
    (hr : b.Resolves h) (hw : b.window? h = some w) : (b.contents h).size = w.count := by
  obtain ⟨v, hv, hholds⟩ := hr.window?
  obtain rfl : w = v := Option.some.inj (hw.symm.trans hv)
  rw [contents, hw]
  exact Device.size_words hholds

namespace Network

def initials (n : Network α) : List (Shape × Initializer) :=
  n.initializers.map fun p => (n.shapeOf p.1, p.2)

variable [Scalar α]

/-- What the slots and auxiliary buffers of a compiled network hold before it runs. -/
structure Initialized (m : Network α) (auxiliary : Nat) (inits : List (TensorId × Initializer))
    (draws : List (Array Binary32)) : Prop where
  slots : ∀ (i : Nat) (t : Tensor) (side : Side), m.tensors[i]? = some t →
    (t.storage side).slots.size = t.slotsOn side
  size_auxiliary : ∀ (i : Nat) (t : Tensor), m.tensors[i]? = some t →
    t.auxiliary.size = if t.kind = .parameter then auxiliary else 0
  forward : ∀ (i : Nat) (t : Tensor) (j : Nat) (k : BufferId), m.tensors[i]? = some t →
    t.part? (.slot .forward j) = some k →
      m.backend.contents k = ((lastDrawn ⟨i⟩ inits draws).map (·.map Scalar.ofWord)).getD
        (Array.replicate t.shape.elements 0)
  backward : ∀ (i : Nat) (t : Tensor) (j : Nat) (k : BufferId), m.tensors[i]? = some t →
    t.part? (.slot .backward j) = some k →
      m.backend.contents k = Array.replicate t.shape.elements 0
  auxiliary : ∀ (i : Nat) (t : Tensor) (j : Nat) (k : BufferId), m.tensors[i]? = some t →
    t.part? (.auxiliary j) = some k →
      t.shape.elements ≤ (m.backend.contents k).size ∧ ∀ x ∈ m.backend.contents k, x = 0

variable {b : Backend α} {config : NetworkConfig} {n m : Network α} {batch floor auxiliary : Nat}
  {allocation : Nat → Side → Nat}

/-! ### Drawing -/

theorem Layout.slot {ts : Array Tensor} {count i j : Nat} {t : Tensor} {side : Side}
    {k : BufferId} (hl : Layout b floor auxiliary ts count allocation) (hi : i < count)
    (ht : ts[i]? = some t) (hlive : t.Lives side)
    (hk : t.part? (.slot side j) = some k) :
    ∃ start, b.Resolves k ∧ b.window? k = some ⟨allocation i side, start, t.shape.elements⟩ := by
  obtain ⟨stride, -, hslots⟩ := ((hl.stored i t hi ht).occupies side hlive).slots
  exact ⟨stride * j, hslots j k hk⟩

theorem part?_of_forwardBuffer {t : Tensor} {k : BufferId}
    (hk : t.forwardBuffer .current = .ok k) :
    t.part? (.slot .forward t.currentSlot) = some k :=
  (Tensor.slot_ok_iff.mp hk).2

theorem Layout.drawInitial {p : TensorId × Initializer}
    (hl : Layout n.backend floor auxiliary n.tensors n.tensors.size allocation)
    (h : drawInitial p.1 p.2 n = .ok ⟨⟩ m) :
    m = { n with backend := m.backend, generator := m.generator } ∧
      Layout m.backend floor auxiliary n.tensors n.tensors.size allocation ∧
      ∃ values, p.2.sample (n.shapeOf p.1) n.generator = .ok (values, m.generator) ∧
        ∀ i t k, n.tensors[i]? = some t → t.forwardBuffer .current = .ok k →
          m.backend.contents k =
            if p.1 = ⟨i⟩ then values.map Scalar.ofWord else n.backend.contents k := by
  obtain ⟨u, l, values, g, c, hu, hul, hs, hc, rfl⟩ := drawInitial_ok_iff.mp h
  have hlt := (Array.getElem?_eq_some_iff.mp hu).1
  obtain ⟨start, hr, hw⟩ := hl.slot hlt hu u.lives_forward (part?_of_forwardBuffer hul)
  have hsize : (values.map (Scalar.ofWord (α := α))).size = u.shape.elements := by
    rw [Array.size_map, Initializer.size_sample hs]
  have hput : c = n.backend.put l (values.map Scalar.ofWord) := by
    rw [hr.write_ok hw hsize] at hc
    cases hc
    rfl
  have hcontents : (values.map (Scalar.ofWord (α := α))).size = (n.backend.contents l).size := by
    rw [hr.size_contents hw, hsize]
  subst hput
  refine ⟨rfl, hl.congr (Backend.buffers_put ..) (Backend.sizes_put ..), values,
    by rw [shapeOf_eq hu]; exact hs, fun i t k ht hk => ?_⟩
  by_cases hi : p.1 = ⟨i⟩
  · rw [if_pos hi]
    rw [hi, ht, Option.some.injEq] at hu
    subst hu
    obtain rfl : k = l := Except.ok.inj (hk.symm.trans hul)
    exact Backend.contents_put_self hr hcontents
  · rw [if_neg hi]
    refine Backend.contents_put_apart hr (fun w v hw' hv => .inl fun he => hi ?_) hcontents
    obtain ⟨start', -, hv'⟩ := hl.slot (Array.getElem?_eq_some_iff.mp ht).1 ht t.lives_forward
      (part?_of_forwardBuffer hk)
    rw [hw] at hw'
    rw [hv'] at hv
    cases hw'
    cases hv
    have hindex := (hl.apart p.1.index i u t .forward .forward hlt
      (Array.getElem?_eq_some_iff.mp ht).1 hu ht u.lives_forward t.lives_forward he).1
    rw [← hindex]

theorem Layout.drawInitials {l : List (TensorId × Initializer)}
    (hl : Layout n.backend floor auxiliary n.tensors n.tensors.size allocation)
    (h : (l.forM fun p => Network.drawInitial p.1 p.2) n = .ok ⟨⟩ m) :
    ∃ draws, drawAll (l.map fun p => (n.shapeOf p.1, p.2)) n.generator = .ok (draws, m.generator) ∧
      ∀ i t k, n.tensors[i]? = some t → t.forwardBuffer .current = .ok k →
        m.backend.contents k = ((lastDrawn ⟨i⟩ l draws).map (·.map Scalar.ofWord)).getD
          (n.backend.contents k) := by
  induction l generalizing n with
  | nil =>
    obtain rfl := Call.forM_nil_ok_iff.mp h
    exact ⟨[], rfl, fun _ _ _ _ _ => rfl⟩
  | cons p l ih =>
    obtain ⟨m₁, hp, hrest⟩ := Call.forM_cons_ok_iff.mp h
    obtain ⟨hm₁, hl₁, values, hs, hcontents⟩ := hl.drawInitial hp
    have htensors : m₁.tensors = n.tensors := by rw [hm₁]
    have hshape : m₁.shapeOf = n.shapeOf := by
      funext x
      rw [shapeOf, shapeOf, htensors]
    rw [← htensors] at hl₁
    obtain ⟨draws, hdraws, hlast⟩ := ih hl₁ hrest
    refine ⟨values :: draws, drawAll_cons_ok_iff.mpr ⟨values, m₁.generator, draws, hs, ?_, rfl⟩,
      fun i t k ht hk => ?_⟩
    · rw [← hshape]
      exact hdraws
    · rw [hlast i t k (htensors ▸ ht) hk, lastDrawn_cons, hcontents i t k ht hk]
      cases lastDrawn ⟨i⟩ l draws with
      | some drawn => rfl
      | none =>
        by_cases hi : p.1 = ⟨i⟩
        · simp [hi]
        · simp [hi]

/-! ### Compilation -/

theorem Arranged.slot_blank (h : Arranged m auxiliary allocation) {i j : Nat} {t : Tensor}
    {side : Side} {k : BufferId} (ht : m.tensors[i]? = some t) (hlive : t.Lives side)
    (hk : t.part? (.slot side j) = some k) (hother : t.kind = .parameter → side = .backward) :
    m.backend.contents k = Array.replicate t.shape.elements 0 := by
  obtain ⟨floor, hl⟩ := h.layout
  obtain ⟨start, hr, hw⟩ := hl.slot (Array.getElem?_eq_some_iff.mp ht).1 ht hlive hk
  exact Backend.Blank.contents hr hw (h.blank i t side ht hlive hother)

theorem Arranged.lives_of_part {i j : Nat} {t : Tensor} {side : Side} {k : BufferId}
    (h : Arranged m auxiliary allocation) (ht : m.tensors[i]? = some t)
    (hk : t.part? (.slot side j) = some k) : t.Lives side := by
  rintro rfl
  obtain ⟨floor, hl⟩ := h.layout
  have hstored := hl.stored i t (Array.getElem?_eq_some_iff.mp ht).1 ht
  by_contra hdead
  have hempty := hstored.dead (by simpa using hdead)
  simp [Tensor.part?, Tensor.storage, hempty] at hk

theorem Outline.initialized (hn : Outline b n) (hc : Compiled n m batch)
    {p : TensorId × Initializer} (hp : p ∈ n.initializers) :
    ∃ t, m.tensors[p.1.index]? = some t ∧ t.kind = .parameter := by
  obtain ⟨u, hu, hkind, -⟩ := hn.initializer hp
  obtain ⟨t, ht, hsame⟩ := hc.tensor _ u hu
  rw [batchTensor_parameter hkind] at hsame
  refine ⟨t, ht, ?_⟩
  rw [hsame]
  exact hkind

/-- The last stage of a compilation draws all first values, and writes them into blank slots. -/
theorem compile_drawn (hn : Outline b n) (idle : b.Idle) (h : compile batch n = .ok ⟨⟩ m) :
    ∃ draws g, drawAll n.initials n.generator = .ok (draws, g) ∧
      ∀ i t k, m.tensors[i]? = some t → t.forwardBuffer .current = .ok k →
        m.backend.contents k = ((lastDrawn ⟨i⟩ n.initializers draws).map
          (·.map Scalar.ofWord)).getD (Array.replicate t.shape.elements 0) := by
  obtain ⟨-, m₁, m₂, h₁, h₂, rfl⟩ := compile_ok_iff_draws.mp h
  have hm₁ := prepare_ok hn idle h₁
  obtain ⟨floor, allocation, hl, hblank⟩ := hm₁.layout
  obtain ⟨hm₂, -⟩ := drawInitials_ok (A := fun _ => True) (fun _ _ _ _ _ _ _ _ => trivial) h₂
  have htensors : m₂.tensors = m₁.tensors := by rw [hm₂]
  rw [Network.drawInitials, Call.get_bind_ok_iff] at h₂
  obtain ⟨draws, hdraws, hlast⟩ := hl.drawInitials h₂
  have hinitials : m₁.initializers.map (fun p => (m₁.shapeOf p.1, p.2)) = n.initials := by
    rw [hm₁.initializers, initials]
    exact List.map_congr_left fun p hp => by rw [hm₁.shapeOf p hp]
  rw [hinitials, hm₁.generator] at hdraws
  rw [hm₁.initializers] at hlast
  refine ⟨draws, _, hdraws, fun i t k ht hk => ?_⟩
  replace ht : m₁.tensors[i]? = some t := htensors ▸ ht
  have hi := (Array.getElem?_eq_some_iff.mp ht).1
  obtain ⟨start, hr, hw⟩ := hl.slot hi ht t.lives_forward (part?_of_forwardBuffer hk)
  have hzero := Backend.Blank.contents hr hw (hblank _ (hl.above i .forward hi))
  exact (hlast i t k ht hk).trans (by rw [hzero])

theorem compile_initialized (hn : Outline b n) (idle : b.Idle) (h : compile batch n = .ok ⟨⟩ m) :
    ∃ draws g, drawAll n.initials n.generator = .ok (draws, g) ∧
      m.Initialized n.auxiliaryCount n.initializers draws := by
  have hc := compile_ok hn idle h
  have hdivided := compile_divided hn idle h
  obtain ⟨allocation, harranged⟩ := hc.arranged
  obtain ⟨floor, hl⟩ := harranged.layout
  obtain ⟨draws, g, hdraws, hlast⟩ := compile_drawn hn idle h
  refine ⟨draws, g, hdraws, fun i t side ht => hdivided.slots i t ht side, hdivided.auxiliary,
    fun i t j k ht hk => ?_, fun i t j k ht hk => ?_, fun i t j k ht hk => ?_⟩
  · have hi := (Array.getElem?_eq_some_iff.mp ht).1
    by_cases hkind : t.kind = .parameter
    · -- a parameter has a single slot
      have hj : j = t.currentSlot := by
        have hlt := (Array.getElem?_eq_some_iff.mp hk).1
        rw [hdivided.slots i t ht .forward] at hlt
        simp only [Tensor.slotsOn, hkind] at hlt
        simp only [Tensor.currentSlot, hkind]
        omega
      obtain ⟨base, whole, hbase, -⟩ :=
        ((hl.stored i t hi ht).occupies .forward t.lives_forward).base
      exact hlast i t k ht (Tensor.slot_ok_iff.mpr ⟨by rw [hbase]; rfl, hj ▸ hk⟩)
    · have hnone : lastDrawn ⟨i⟩ n.initializers draws = none := by
        refine lastDrawn_eq_none draws fun p hp he => hkind ?_
        obtain ⟨t', ht', hparameter⟩ := hn.initialized hc hp
        rw [he] at ht'
        obtain rfl : t' = t := Option.some.inj (ht'.symm.trans ht)
        exact hparameter
      rw [hnone]
      exact harranged.slot_blank ht t.lives_forward hk fun hk' => absurd hk' hkind
  · exact harranged.slot_blank ht (harranged.lives_of_part ht hk) hk fun _ => rfl
  · obtain ⟨hr, w, hw, hle, -⟩ :=
      (hl.stored i t (Array.getElem?_eq_some_iff.mp ht).1 ht).auxiliary j k hk
    have hzero := Backend.Blank.contents hr hw
      (harranged.blank_auxiliary i t k w ht (Array.mem_of_getElem? hk) hw)
    rw [hzero, Array.size_replicate]
    exact ⟨hle, fun x hx => (Array.mem_replicate.mp hx).2⟩

/-- Networks that ask for the same first values, for tensors which may have other numbers. -/
structure SameInitials (f : TensorId → TensorId) (n n' : Network α) : Prop where
  injective : f.Injective
  initializers : n'.initializers = n.initializers.map fun p => (f p.1, p.2)
  shapes : ∀ p ∈ n.initializers, n'.shapeOf (f p.1) = n.shapeOf p.1

omit [Scalar α] in
theorem SameInitials.initials {f : TensorId → TensorId} {n' : Network α}
    (h : SameInitials f n n') : n'.initials = n.initials := by
  rw [Network.initials, Network.initials, h.initializers, List.map_map]
  refine List.map_congr_left fun p hp => ?_
  simp only [Function.comp_apply, h.shapes p hp]

/-- Slots hold the same values where these do not depend on what a tensor is called. -/
theorem Initialized.contents_eq {f : TensorId → TensorId} {n' m' : Network α} {auxiliary' : Nat}
    {draws : List (Array Binary32)} (h : m.Initialized auxiliary n.initializers draws)
    (h' : m'.Initialized auxiliary' n'.initializers draws)
    (same : SameInitials f n n') {x : TensorId}
    {t t' : Tensor} {k k' : BufferId} (ht : m.tensors[x.index]? = some t)
    (ht' : m'.tensors[(f x).index]? = some t') (hshape : t'.shape = t.shape)
    (hk : t.part? (.slot .forward 0) = some k) (hk' : t'.part? (.slot .forward 0) = some k') :
    m'.backend.contents k' = m.backend.contents k := by
  have hlast := lastDrawn_rename same.injective x n.initializers draws
  rw [← same.initializers] at hlast
  rw [h.forward x.index t 0 k ht hk, h'.forward (f x).index t' 0 k' ht' hk', hlast, hshape]

/-- A compiled network holds zeros, but for the parameters with first values. These values are the
same in networks which start from the same seed and ask for the same ones. -/
theorem Assembled.first_values (idle : b.Idle) (built : Assembled (Network.new b config) n)
    (h : compile batch n = .ok ⟨⟩ m) :
    (∃ draws g, drawAll n.initials (Generator.ofSeed config.seed) = .ok (draws, g) ∧
      List.Forall₂ (fun p values => values.size = (n.shapeOf p.1).elements) n.initializers draws ∧
      m.Initialized n.auxiliaryCount n.initializers draws) ∧
    ∀ (b' : Backend α) (config' : NetworkConfig) (n' m' : Network α) (batch' : Nat)
      (f : TensorId → TensorId), b'.Idle → Assembled (Network.new b' config') n' →
      compile batch' n' = .ok ⟨⟩ m' → config'.seed = config.seed → SameInitials f n n' →
      ∀ (x : TensorId) (t t' : Tensor) (k k' : BufferId), m.tensors[x.index]? = some t →
        m'.tensors[(f x).index]? = some t' → t'.shape = t.shape →
        t.part? (.slot .forward 0) = some k → t'.part? (.slot .forward 0) = some k' →
          m'.backend.contents k' = m.backend.contents k := by
  have hinit : ∀ {b : Backend α} {config : NetworkConfig} {n m : Network α} {batch : Nat},
      b.Idle → Assembled (Network.new b config) n → compile batch n = .ok ⟨⟩ m →
        ∃ draws g, drawAll n.initials (Generator.ofSeed config.seed) = .ok (draws, g) ∧
          m.Initialized n.auxiliaryCount n.initializers draws := by
    intro b config n m batch idle built h
    have idle' : Backend.Idle { b with validation := config.validate } :=
      ⟨idle.dispatches, idle.sound⟩
    obtain ⟨draws, g, hdraws, hm⟩ := compile_initialized built.outline idle' h
    obtain ⟨ts, more, long, o, inits, hn⟩ := built.grown
    have hgenerator : n.generator = .ofSeed config.seed := by
      rw [hn]
      rfl
    exact ⟨draws, g, hgenerator ▸ hdraws, hm⟩
  obtain ⟨draws, g, hdraws, hm⟩ := hinit idle built h
  refine ⟨⟨draws, g, hdraws, ?_, hm⟩, ?_⟩
  · have hsizes := size_drawAll hdraws
    rwa [initials, List.forall₂_map_left_iff] at hsizes
  · intro b' config' n' m' batch' f idle' built' h' hseed same x t t' k k' ht ht' hshape hk hk'
    obtain ⟨draws', g', hdraws', hm'⟩ := hinit idle' built' h'
    rw [same.initials, hseed, hdraws] at hdraws'
    cases hdraws'
    exact hm.contents_eq hm' same ht ht' hshape hk hk'

/-- Parameters after some other tensors; the second of them is given first values twice. -/
def drawnParameters (others : List (BuildingCall Binary32)) : Network Binary32 :=
  (Network.new Backend.host {}).draft (others ++
    [.createParameter ⟨2, 1, 1, 1⟩ 1, .createParameter ⟨1, 1, 1, 1⟩ 1,
      .initWeight ⟨others.length + 1⟩ (.constant 1), .initWeight ⟨others.length⟩ (.uniform 0 1),
      .initWeight ⟨others.length + 1⟩ (.uniform 0 1)])

set_option maxRecDepth 100000 in
theorem drawnParameters_first_values : ∃ m m' draws g t t' k k',
    compile 1 (drawnParameters []) = .ok ⟨⟩ m ∧
    compile 3 (drawnParameters [.createInput ⟨4, 1, 1, 1⟩ 2]) = .ok ⟨⟩ m' ∧
    drawAll (drawnParameters []).initials (.ofSeed 99) = .ok (draws, g) ∧
    m.Initialized (drawnParameters []).auxiliaryCount (drawnParameters []).initializers draws ∧
    m.tensors[1]? = some t ∧ t.part? (.slot .forward 0) = some k ∧
    m'.tensors[2]? = some t' ∧ t'.part? (.slot .forward 0) = some k' ∧
    m'.backend.contents k' = m.backend.contents k := by
  have hm : compile 1 (drawnParameters []) =
      .ok ⟨⟩ (Call.after (compile 1) (drawnParameters [])) :=
    Call.ok_of_isOk (by decide +kernel)
  have hm' : compile 3 (drawnParameters [.createInput ⟨4, 1, 1, 1⟩ 2]) =
      .ok ⟨⟩ (Call.after (compile 3) (drawnParameters [.createInput ⟨4, 1, 1, 1⟩ 2])) :=
    Call.ok_of_isOk (by decide +kernel)
  have hslot : ((Call.after (compile 1) (drawnParameters [])).tensors[1]?.bind fun t =>
      (t.part? (.slot .forward 0)).map fun k => (t.shape, k)) = some (⟨1, 1, 1, 1⟩, ⟨5⟩) := by
    decide +kernel
  have hslot' : ((Call.after (compile 3) (drawnParameters
      [.createInput ⟨4, 1, 1, 1⟩ 2])).tensors[2]?.bind fun t =>
        (t.part? (.slot .forward 0)).map fun k => (t.shape, k)) = some (⟨1, 1, 1, 1⟩, ⟨11⟩) := by
    decide +kernel
  have hsame : SameInitials (fun x => ⟨x.index + 1⟩) (drawnParameters [])
      (drawnParameters [.createInput ⟨4, 1, 1, 1⟩ 2]) :=
    { injective := fun ⟨i⟩ ⟨j⟩ h => by simpa using h
      initializers := by decide +kernel
      shapes := by decide +kernel }
  simp only [Option.bind_eq_some_iff, Option.map_eq_some_iff, Prod.mk.injEq] at hslot hslot'
  obtain ⟨t, ht, k, hk, hshape, rfl⟩ := hslot
  obtain ⟨t', ht', k', hk', hshape', rfl⟩ := hslot'
  obtain ⟨⟨draws, g, hdraws, -, hinit⟩, hsecond⟩ :=
    Assembled.first_values Backend.host_idle (.draft .start _) hm
  exact ⟨_, _, draws, g, t, t', _, _, hm, hm', hdraws, hinit, ht, hk, ht', hk',
    hsecond _ _ _ _ _ _ Backend.host_idle (.draft .start _) hm' rfl hsame ⟨1⟩ t t' _ _ ht ht'
      (hshape'.trans hshape.symm) hk hk'⟩

end Network

end Backprop
