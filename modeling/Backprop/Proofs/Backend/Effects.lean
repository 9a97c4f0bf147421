import Mathlib
import Backprop.Proofs.Backend.Run
import Backprop.Proofs.Backend.Transfer
import Backprop.Proofs.Operator.Footprint

/-! What a call changes in memory, word by word: a dispatch changes words of the buffers that its
kernel writes, a pass those of its dispatches, a transfer those of its buffer's allocation. -/

namespace Backprop

variable {α : Type}

namespace Device

def word? (d : Device α) (a i : Nat) : Option α := d.memory[a]?.bind (·[i]?)

theorem word?_store {d : Device α} {w : Window} {data : Array α} {a i : Nat}
    (h : a = w.allocation → i < w.start ∨ w.start + data.size ≤ i) :
    (d.store w data).word? a i = d.word? a i := by
  simp only [word?, store, Array.getElem?_modify]
  split
  · next he =>
    have hout := h he.symm
    cases hm : d.memory[a]? with
    | none => rfl
    | some words =>
      simp only [Option.map_some, Option.bind_some, getElem?_overlay]
      rw [if_neg (by omega)]
  · rfl

theorem words_congr {d e : Device α} {w : Window}
    (h : ∀ i, w.start ≤ i → i < w.start + w.count → e.word? w.allocation i = d.word? w.allocation i)
    (hs : e.sizes = d.sizes) : e.words w = d.words w := by
  have hsize : (e.memory[w.allocation]?).map (·.size) = (d.memory[w.allocation]?).map (·.size) := by
    rw [← Array.getElem?_map, ← Array.getElem?_map]
    exact congrArg (·[w.allocation]?) hs
  cases hd : d.memory[w.allocation]? with
  | none =>
    rw [hd, Option.map_none, Option.map_eq_none_iff] at hsize
    simp only [words, hd, hsize]
  | some words =>
    rw [hd, Option.map_some, Option.map_eq_some_iff] at hsize
    obtain ⟨words', he, hsize⟩ := hsize
    simp only [Device.words, hd, he]
    refine Array.ext_getElem? fun i => ?_
    simp only [Array.getElem?_extract, hsize]
    by_cases hi : i < min (w.start + w.count) words.size - w.start
    · have hword := h (w.start + i) (by omega) (by omega)
      simp only [word?, hd, he, Option.bind_some] at hword
      rw [if_pos hi, if_pos hi, hword]
    · rw [if_neg hi, if_neg hi]

end Device

namespace Backend

def Covers (b : Backend α) (h : BufferId) (a i : Nat) : Prop :=
  ∃ w, b.window? h = some w ∧ w.allocation = a ∧ w.start ≤ i ∧ i < w.start + w.count

/-- Nothing in memory has changed but words of some buffers. -/
structure Alters (b c : Backend α) (H : BufferId → Prop) : Prop where
  buffers : c.buffers = b.buffers
  sizes : c.device.sizes = b.device.sizes
  words : ∀ a i, (∀ h, H h → ¬b.Covers h a i) → c.device.word? a i = b.device.word? a i

namespace Alters

variable {b c d : Backend α} {H H' : BufferId → Prop}

theorem refl (b : Backend α) (H : BufferId → Prop) : b.Alters b H := ⟨rfl, rfl, fun _ _ _ => rfl⟩

theorem covers (h : b.Alters c H) : c.Covers = b.Covers := by
  funext k a i
  unfold Covers
  rw [window?_congr h.buffers]

theorem trans (h : b.Alters c H) (h' : c.Alters d H) : b.Alters d H := by
  refine ⟨h'.buffers.trans h.buffers, h'.sizes.trans h.sizes, fun a i hi => ?_⟩
  rw [h'.words a i (h.covers ▸ hi), h.words a i hi]

theorem mono (h : b.Alters c H) (hH : ∀ k, H k → H' k) : b.Alters c H' :=
  ⟨h.buffers, h.sizes, fun a i hi => h.words a i fun k hk => hi k (hH k hk)⟩

theorem contents (h : b.Alters c H) {k : BufferId} (apart : ∀ l, H l → b.Apart k l) :
    c.contents k = b.contents k := by
  rw [Backend.contents, Backend.contents, window?_congr h.buffers]
  cases hw : b.window? k with
  | none => rfl
  | some w =>
    refine Device.words_congr (fun i hlow hhigh => h.words _ _ ?_) h.sizes
    rintro l hl ⟨v, hv, ha, hlow', hhigh'⟩
    have happ := apart l hl w v hw hv
    unfold Window.Apart at happ
    omega

theorem put (b : Backend α) {h : BufferId} {data : Array α}
    (hs : ∀ w, b.window? h = some w → data.size ≤ w.count) : b.Alters (b.put h data) (· = h) := by
  refine ⟨buffers_put b h data, sizes_put b h data, fun a i hi => ?_⟩
  unfold Backend.put
  split
  · next w hw =>
    have hsize := hs w hw
    refine Device.word?_store fun ha => ?_
    by_contra hin
    exact hi h rfl ⟨w, hw, ha.symm, by omega, by omega⟩
  · rfl

end Alters

theorem mem_written_iff {k : HostKernel} {args : List (KernelArg α)} {h : BufferId} :
    h ∈ k.written args ↔ ∃ i ∈ k.outputs, args[i]? = some (.buffer h) := by
  simp only [HostKernel.written, List.mem_filterMap, Prod.exists, List.mem_zipIdx_iff_getElem?]
  constructor
  · rintro ⟨arg, i, hi, hh⟩
    cases arg with
    | buffer l =>
      simp only [Option.ite_none_right_eq_some, Option.some.injEq] at hh
      obtain ⟨hout, rfl⟩ := hh
      exact ⟨i, hout, hi⟩
    | scalar s => cases hh
    | blob bytes => cases hh
  · rintro ⟨i, hout, hi⟩
    exact ⟨_, i, hi, by simp [hout]⟩

variable [Scalar α] {b : Backend α} {d e : Dispatch α} {H : BufferId → Prop}

/-- A dispatch changes words of the buffers that its kernel writes. -/
theorem execute_alters {dev : Device α} (he : b.execute d = .ok dev)
    (writes : ∀ h, b.Writes d h → H h) : b.Alters { b with device := dev } H := by
  obtain ⟨compiled, ws, hk, hresolves, hrun, rfl⟩ := execute_ok_iff.mp he
  obtain ⟨houtputs, hsizes⟩ := HostKernel.run_changes hrun
  have hchange : ∀ change ∈ ws, ∀ h, d.args[change.1]? = some (.buffer h) →
      H h ∧ ∀ w, b.window? h = some w → change.2.size ≤ w.count := by
    intro change hc h hh
    refine ⟨writes h ⟨compiled, hk, mem_written_iff.mpr ⟨change.1, ?_, hh⟩⟩, fun w hw => ?_⟩
    · rw [← houtputs]
      exact List.mem_map_of_mem hc
    · obtain ⟨old, hold, hsize⟩ := hsizes change hc
      rw [List.getElem?_map, hh, Option.map_some, Option.some.injEq] at hold
      obtain ⟨w', hw', hholds⟩ := (hresolves h (List.mem_of_getElem? hh)).window?
      rw [hw, Option.some.injEq] at hw'
      subst hw'
      simp only [operand, Operand.words.injEq] at hold
      rw [hsize, ← hold, contents, hw]
      exact (Device.size_words hholds).le
  have hfold : ∀ ws' : Backprop.Writes α, (∀ change ∈ ws', change ∈ ws) → ∀ c : Backend α, b.Alters c H →
      b.Alters (ws'.foldl (putBack d.args) c) H := by
    intro ws'
    induction ws' with
    | nil => exact fun _ c hc => hc
    | cons change ws' ih =>
      intro hsub c hc
      refine ih (fun x hx => hsub x (List.mem_cons_of_mem _ hx)) _ (hc.trans ?_)
      unfold putBack
      split
      · next h hh =>
        obtain ⟨hH, hsize⟩ := hchange change (hsub _ List.mem_cons_self) h hh
        refine (Alters.put c fun w hw => hsize w ?_).mono fun k hk => hk ▸ hH
        rwa [← window?_congr hc.buffers]
      · exact .refl c H
  have hall := hfold ws (fun _ hx => hx) b (.refl b H)
  have hsame := foldl_putBack_same d.args b ws
  rw [SameButDevice] at hsame
  rwa [← hsame]

theorem Runs.alters {ds : List (Dispatch α)} {c : Backend α} (hr : Runs ds b c)
    (writes : ∀ d ∈ ds, ∀ h, b.Writes d h → H h) : b.Alters c H := by
  induction ds generalizing b with
  | nil =>
    obtain rfl : c = b := hr
    exact .refl c H
  | cons d ds ih =>
    obtain ⟨_, ⟨dev, he, rfl⟩, hrest⟩ := hr
    exact (execute_alters he (writes d List.mem_cons_self)).trans
      (ih hrest fun d' hd' => writes d' (List.mem_cons_of_mem _ hd'))

/-- What a pass may have done: words of some buffers have changed, and dispatches of its own list
have counted their runs. -/
structure Played (pass : Pass) (b c : Backend α) (H : BufferId → Prop) : Prop where
  same : c = { b with device := c.device, dispatches := c.dispatches }
  alters : b.Alters c H
  others : ∀ other, other ≠ pass → c.dispatches.get other = b.dispatches.get other
  counted : List.Forall₂ Dispatch.Counted (b.dispatches.get pass).toList
    (c.dispatches.get pass).toList

theorem Played.refl (pass : Pass) (b : Backend α) (H : BufferId → Prop) : b.Played pass b H :=
  ⟨rfl, .refl b H, fun _ _ => rfl, List.forall₂_same.mpr fun d _ => .refl d⟩

theorem Writes.of_counted {c : Backend α} (hk : c.kernels = b.kernels) (hd : d.Counted e)
    {h : BufferId} (hw : c.Writes e h) : b.Writes d h := by
  obtain ⟨compiled, hkernel, hmem⟩ := hw
  obtain ⟨i, hi, harg⟩ := mem_written_iff.mp hmem
  rw [hk, hd.kernel] at hkernel
  exact ⟨compiled, hkernel, mem_written_iff.mpr ⟨i, hi, hd.buffer_at harg⟩⟩

theorem play_played {pass : Pass}
    (writes : ∀ d ∈ b.dispatches.get pass, ∀ h, b.Writes d h → H h) (position : Nat) :
    Call.Keeps (b.Played pass · H) (play pass position) fun _ => True := by
  refine Call.Keeps.get.bind fun c hc => ?_
  cases hd : (c.dispatches.get pass)[position]? with
  | none => exact .pure trivial
  | some e =>
    refine (Call.Keeps.ofExcept (Q := fun dev => c.execute e = .ok dev) fun _ h => h).bind
      fun dev hdev => ?_
    have hlist : (c.dispatches.get pass).toList[position]? = some e := by simpa using hd
    obtain ⟨d, hmem, hcount⟩ := forall₂_getElem? hc.counted.flip hlist
    have hkernels : c.kernels = b.kernels := by rw [hc.same]
    have hwrites : ∀ h, c.Writes e h → H h := fun h hw =>
      writes d (by simpa using List.mem_of_getElem? hmem) h (hw.of_counted hkernels hcount)
    have halters := hc.alters.trans (execute_alters hdev hwrites)
    have hsame : { c with
        device := dev
        dispatches := c.dispatches.modify pass (·.modify position (·.afterRun)) } = { b with
        device := dev
        dispatches := c.dispatches.modify pass (·.modify position (·.afterRun)) } := by
      rw [hc.same]
    refine fun _ _ => ⟨⟨hsame, ⟨halters.buffers, halters.sizes, halters.words⟩,
      fun other hne => ?_, ?_⟩, fun _ _ _ => trivial⟩
    · exact (PerPass.get_modify_of_ne _ _ hne).trans (hc.others other hne)
    · change List.Forall₂ _ _ ((c.dispatches.modify pass _).get pass).toList
      rw [PerPass.get_modify_self, Array.toList_modify]
      have hcounted := List.forall₂_iff_get.mp hc.counted
      refine List.forall₂_iff_get.mpr ⟨by simpa using hcounted.1, fun i h₁ h₂ => ?_⟩
      have hi := hcounted.2 i h₁ (by simpa using h₂)
      simp only [List.get_eq_getElem, List.getElem_modify] at hi ⊢
      split
      · exact hi.next
      · exact hi

/-- A pass changes words of the buffers that its dispatches write, also when it fails. -/
theorem run_played {pass : Pass}
    (writes : ∀ d ∈ b.dispatches.get pass, ∀ h, b.Writes d h → H h) :
    b.Played pass (Call.after (run pass) b) H := by
  have hkeeps : Call.Keeps (b.Played pass · H) (run pass) fun _ => True :=
    Call.Keeps.get.bind fun _ _ => .forM fun position _ => play_played writes position
  exact (hkeeps b (.refl pass b H)).1

/-! ### Zeroing -/

/-- The buffer covers its allocation whole. -/
def Spans (b : Backend α) (h : BufferId) (a : Nat) : Prop :=
  ∃ whole words, b.buffers[h.index]? = some whole ∧ whole.allocation = a ∧ whole.offset = 0 ∧
    b.device.memory[a]? = some words ∧ whole.bytes = 4 * words.size

omit [Scalar α] in
theorem Spans.congr {c : Backend α} {h : BufferId} {a : Nat} (hs : b.Spans h a)
    (buffers : c.buffers = b.buffers) (sizes : c.device.sizes = b.device.sizes) : c.Spans h a := by
  obtain ⟨whole, words, hwhole, ha, hzero, hwords, hfull⟩ := hs
  have hsize : (c.device.memory[a]?).map (·.size) = some words.size := by
    have hh := congrArg (fun sizes => sizes[a]?) sizes
    simpa [Device.sizes, hwords] using hh
  obtain ⟨words', hwords', hsize⟩ := Option.map_eq_some_iff.mp hsize
  exact ⟨whole, words', buffers ▸ hwhole, ha, hzero, hwords', hsize ▸ hfull⟩

omit [Scalar α] in
theorem Spans.unique {h : BufferId} {a a' : Nat} (hs : b.Spans h a) (hs' : b.Spans h a') :
    a = a' := by
  obtain ⟨whole, -, hwhole, rfl, -⟩ := hs
  obtain ⟨whole', -, hwhole', rfl, -⟩ := hs'
  rw [hwhole, Option.some.injEq] at hwhole'
  rw [hwhole']

omit [Scalar α] in
theorem Spans.allocation {h : BufferId} {a : Nat} (hs : b.Spans h a) {w : Window}
    (hw : b.window? h = some w) : w.allocation = a := by
  obtain ⟨whole, -, hwhole, rfl, -⟩ := hs
  simp only [window?, hwhole, Option.map_some, Option.some.injEq] at hw
  rw [← hw]

/-- Words of some buffers have become zero, and nothing else has changed. -/
structure Clears [Zero α] (b c : Backend α) (H : BufferId → Prop) : Prop where
  alters : b.Alters c H
  wiped : b.Wiped c

omit [Scalar α] in
theorem Clears.refl [Zero α] (b : Backend α) (H : BufferId → Prop) : b.Clears b H :=
  ⟨.refl b H, .refl b⟩

omit [Scalar α] in
theorem Clears.trans [Zero α] {c d : Backend α} (h : b.Clears c H) (h' : c.Clears d H) :
    b.Clears d H :=
  ⟨h.alters.trans h'.alters, h.wiped.trans h'.wiped⟩

omit [Scalar α] in
theorem Spans.zeroed [Zero α] {h : BufferId} {a : Nat} (hs : b.Spans h a) :
    ∃ whole c, b.buffers[h.index]? = some whole ∧ zero h 0 whole.bytes b = .ok ⟨⟩ c ∧
      b.Clears c (· = h) ∧ c.Blank a := by
  obtain ⟨whole, words, hwhole, rfl, hoffset, hwords, hfull⟩ := hs
  have hwindow : b.window h 0 whole.bytes = .ok ⟨whole.allocation, 0, words.size⟩ := by
    refine window_ok_iff.mpr ⟨whole, hwhole, fun _ => by simp, by simp [hoffset], by omega, ?_,
      words, hwords, by simp⟩
    simp only [hoffset, hfull, Window.mk.injEq, true_and]
    omega
  have hput : b.put h (Array.replicate words.size 0) =
      { b with device := b.device.fillZero ⟨whole.allocation, 0, words.size⟩ } := by
    have hw : b.window? h = some ⟨whole.allocation, 0, words.size⟩ := by
      simp only [window?, hwhole, Option.map_some, hoffset, hfull, Option.some.injEq,
        Window.mk.injEq, true_and]
      omega
    rw [put, hw]
    rfl
  refine ⟨whole, _, hwhole, zero_ok_iff.mpr ⟨_, hwindow, rfl⟩,
    ⟨?_, b.fillZero_wiped _⟩, fun words' hwords' x hx => ?_⟩
  · rw [← hput]
    refine Alters.put b fun w hw => ?_
    simp only [window?, hwhole, Option.map_some, Option.some.injEq] at hw
    rw [Array.size_replicate, ← hw]
    simp only
    omega
  · simp only [Device.fillZero, Device.store, Array.getElem?_modify, hwords, Option.map_some,
      if_true, Option.some.injEq] at hwords'
    subst hwords'
    obtain ⟨i, hi⟩ := Array.getElem?_of_mem hx
    have hlt := (Array.getElem?_eq_some_iff.mp hi).1
    rw [Device.size_overlay] at hlt
    rw [Device.getElem?_overlay, if_pos (by simpa using hlt)] at hi
    exact (Array.mem_replicate.mp (Array.mem_of_getElem? hi)).2

end Backend

theorem Storage.zeroed [Zero α] {s : Storage} {b : Backend α} {base : BufferId} {a : Nat}
    (hs : s.base = some base) (h : b.Spans base a) :
    ∃ c, s.zero b = .ok ⟨⟩ c ∧ b.Clears c (· = base) ∧ c.Blank a := by
  obtain ⟨whole, c, hwhole, hzero, hc⟩ := h.zeroed
  refine ⟨c, ?_, hc⟩
  simp only [Storage.zero, hs, Call.bind_ok_iff, Call.get_ok_iff, Call.ofExcept_ok_iff,
    Backend.buffer_ok_iff]
  exact ⟨_, _, ⟨rfl, rfl⟩, whole, _, ⟨hwhole, rfl⟩, hzero⟩

end Backprop
