import Mathlib
import Backprop.Proofs.Backend.Run

/-! How a pass is played: its dispatches are launched one after the other, the backward pass from
its last one on, until one fails. Each that was launched has counted a run, and the number that
a dispatch counts has moved on by as many runs as the pass has had. -/

namespace Backprop

variable {α : Type} [Scalar α]

theorem PerPass.ext_get {β : Type} {p q : PerPass β} (h : ∀ pass, p.get pass = q.get pass) :
    p = q := by
  obtain ⟨f, b, u⟩ := p
  obtain ⟨f', b', u'⟩ := q
  rw [mk.injEq]
  exact ⟨h .forward, h .backward, h .update⟩

/-! ### Counting -/

def ScalarArg.advance (n : Nat) : ScalarArg α → ScalarArg α
  | .int32 v => .int32 (.ofInt (v.toInt + n))
  | .uint32 v => .uint32 (.ofNat (v.toNat + n))
  | .float x => .float ((· + 1)^[n] x)

def KernelArg.advance (n : Nat) : KernelArg α → KernelArg α
  | .scalar s => .scalar (s.advance n)
  | arg => arg

def Dispatch.advance (n : Nat) (d : Dispatch α) : Dispatch α :=
  match d.increment with
  | some index => { d with args := d.args.modify index (·.advance n) }
  | none => d

theorem ScalarArg.advance_zero (s : ScalarArg α) : s.advance 0 = s := by
  cases s <;> simp [advance]

theorem ScalarArg.next_advance (n : Nat) (s : ScalarArg α) :
    (s.advance n).next = s.advance (n + 1) := by
  cases s with
  | int32 v =>
    rw [advance, advance, next, Int.natCast_succ, ← Int.add_assoc, Int32.ofInt_add (v.toInt + n)]
    rfl
  | uint32 v =>
    rw [advance, advance, next, ← Nat.add_assoc, UInt32.ofNat_add (v.toNat + n)]
    rfl
  | float x => rw [advance, advance, next, Function.iterate_succ_apply']

theorem KernelArg.advance_zero (arg : KernelArg α) : arg.advance 0 = arg := by
  cases arg <;> simp [advance, ScalarArg.advance_zero]

theorem KernelArg.next_advance (n : Nat) (arg : KernelArg α) :
    (arg.advance n).next = arg.advance (n + 1) := by
  cases arg <;> simp [advance, next, ScalarArg.next_advance]

theorem Dispatch.advance_zero (d : Dispatch α) : d.advance 0 = d := by
  have hid : (KernelArg.advance 0 : KernelArg α → KernelArg α) = id := funext KernelArg.advance_zero
  unfold advance
  split
  · rw [hid, List.modify_id]
  · rfl

theorem Dispatch.afterRun_advance (n : Nat) (d : Dispatch α) :
    (d.advance n).afterRun = d.advance (n + 1) := by
  unfold advance afterRun
  cases hi : d.increment with
  | none => simp [hi]
  | some index => simp [List.modify_modify_eq, Function.comp_def, KernelArg.next_advance]

namespace Backend

variable {pass : Pass} {first rest : List (Dispatch α)} {d : Dispatch α} {b c c' : Backend α}

/-! ### Playing a pass -/

/-- The dispatches that come first in the order of a pass have been launched, one after the other,
and each of them has counted a run. Nothing else has changed. -/
structure PlayedFirst (pass : Pass) (first rest : List (Dispatch α)) (b c : Backend α) : Prop where
  order : inPlayOrder pass (b.dispatches.get pass).toList = first ++ rest
  launched : Runs first b { c with dispatches := b.dispatches }
  counted : inPlayOrder pass (c.dispatches.get pass).toList = first.map (·.afterRun) ++ rest
  others : ∀ other, other ≠ pass → c.dispatches.get other = b.dispatches.get other

omit [Scalar α] in
theorem inPlayOrder_injective (pass : Pass) :
    Function.Injective (inPlayOrder pass : List (Dispatch α) → List (Dispatch α)) := by
  cases pass with
  | backward => exact List.reverse_injective
  | forward | update => exact Function.injective_id

theorem play_error_iff {position : Nat} {e : Error} :
    play pass position b = .error e c ↔
      ∃ d, (b.dispatches.get pass)[position]? = some d ∧ b.execute d = .error e ∧ c = b := by
  simp only [play, Call.get_bind]
  cases (b.dispatches.get pass)[position]? with
  | none => simp [Call.pure_error_iff]
  | some d =>
    simp only [Call.bind_error_iff, Call.ofExcept_error_iff, Call.set_error_iff, and_false,
      exists_false, or_false, Option.some.injEq, exists_eq_left', eq_comm (a := b)]

theorem getElem?_forM_play {positions : List Nat} (nodup : positions.Nodup)
    (h : positions.forM (play pass) b = .ok ⟨⟩ c) (i : Nat) :
    (c.dispatches.get pass)[i]? =
      (b.dispatches.get pass)[i]?.map fun d => if i ∈ positions then d.afterRun else d := by
  rw [(forM_play_ok nodup h).2, PerPass.get_modify_self, Array.getElem?_mapIdx]

theorem played_of_positions {before after : List Nat}
    (hsplit : playOrder pass (b.dispatches.get pass).size = before ++ after)
    (h : before.forM (play pass) b = .ok ⟨⟩ c) :
    PlayedFirst pass (before.filterMap ((b.dispatches.get pass)[·]?))
      (after.filterMap ((b.dispatches.get pass)[·]?)) b c := by
  have hnodup := nodup_playOrder pass (b.dispatches.get pass).size
  rw [hsplit] at hnodup
  obtain ⟨hbefore, -, hdisjoint⟩ := List.nodup_append.mp hnodup
  obtain ⟨hruns, hlists⟩ := forM_play_ok hbefore h
  have hget := getElem?_forM_play hbefore h
  have hsize : (c.dispatches.get pass).size = (b.dispatches.get pass).size := by
    rw [hlists, PerPass.get_modify_self, Array.size_mapIdx]
  refine ⟨?_, hruns, ?_, fun other hother => by rw [hlists, PerPass.get_modify_of_ne _ _ hother]⟩
  · rw [← filterMap_playOrder, hsplit, List.filterMap_append]
  · rw [← filterMap_playOrder, hsize, hsplit, List.filterMap_append, List.map_filterMap]
    congr 1
    · refine List.filterMap_congr fun i hi => ?_
      simp only [hget, hi, if_true]
    · refine List.filterMap_congr fun i hi => ?_
      have hfresh : i ∉ before := fun hmem => hdisjoint i hmem i hi rfl
      simp only [hget, hfresh, if_false, Option.map_id']

theorem PlayedFirst.of_run_ok (h : run pass b = .ok ⟨⟩ c) :
    PlayedFirst pass (inPlayOrder pass (b.dispatches.get pass).toList) [] b c := by
  rw [run, Call.get_bind_ok_iff] at h
  have hplayed := played_of_positions (List.append_nil _).symm h
  rwa [filterMap_playOrder, List.filterMap_nil] at hplayed

theorem PlayedFirst.of_run_error {e : Error} (h : run pass b = .error e c) :
    ∃ first d rest, PlayedFirst pass first (d :: rest) b c ∧ c.execute d = .error e := by
  simp only [run, Call.get_bind] at h
  obtain ⟨before, position, after, m, hsplit, hbefore, hplay⟩ := Call.forM_error_iff.mp h
  obtain ⟨d, hd, he, rfl⟩ := play_error_iff.mp hplay
  have hnodup := nodup_playOrder pass (b.dispatches.get pass).size
  rw [hsplit] at hnodup
  obtain ⟨hnodup, -, hdisjoint⟩ := List.nodup_append.mp hnodup
  have hfresh : position ∉ before :=
    fun hmem => hdisjoint position hmem position List.mem_cons_self rfl
  have hsame : (b.dispatches.get pass)[position]? = some d := by
    simpa only [getElem?_forM_play hnodup hbefore, hfresh, if_false, Option.map_id'] using hd
  have hplayed := played_of_positions hsplit hbefore
  rw [List.filterMap_cons_some hsame] at hplayed
  exact ⟨_, d, _, hplayed, he⟩

theorem Runs.det {m m' : Backend α} (h : Runs first b m) (h' : Runs first b m') : m = m' := by
  induction first generalizing b with
  | nil => exact (show m = b from h).trans (show m' = b from h').symm
  | cons d first ih =>
    obtain ⟨_, ⟨dev, hdev, rfl⟩, hrest⟩ := h
    obtain ⟨_, ⟨dev', hdev', rfl⟩, hrest'⟩ := h'
    obtain rfl : dev = dev' := Except.ok.inj (hdev.symm.trans hdev')
    exact ih hrest hrest'

theorem PlayedFirst.unique {rest' : List (Dispatch α)} (h : PlayedFirst pass first rest b c)
    (h' : PlayedFirst pass first rest' b c') : c = c' := by
  have hrest : rest = rest' := List.append_cancel_left (h.order.symm.trans h'.order)
  have hrun := h.launched.det h'.launched
  have hlists : c.dispatches = c'.dispatches := by
    refine PerPass.ext_get fun other => ?_
    by_cases hother : other = pass
    · subst hother
      refine Array.toList_inj.mp (inPlayOrder_injective other ?_)
      rw [h.counted, h'.counted, hrest]
    · rw [h.others other hother, h'.others other hother]
  calc c = { { c with dispatches := b.dispatches } with dispatches := c.dispatches } := rfl
    _ = { { c' with dispatches := b.dispatches } with dispatches := c'.dispatches } := by
      rw [hrun, hlists]
    _ = c' := rfl

theorem PlayedFirst.length_le {e : Error} {first' rest' : List (Dispatch α)}
    (h : PlayedFirst pass first (d :: rest) b c) (he : c.execute d = .error e)
    (h' : PlayedFirst pass first' rest' b c') : first'.length ≤ first.length := by
  by_contra hlt
  obtain ⟨more, rfl⟩ : first <+: first' :=
    List.prefix_of_prefix_length_le ⟨_, h.order.symm⟩ ⟨_, h'.order.symm⟩ (by omega)
  have hnext : d :: rest = more ++ rest' := by
    have horder := h.order.symm.trans h'.order
    rwa [List.append_assoc, List.append_cancel_left_eq] at horder
  cases more with
  | nil => simp at hlt
  | cons d' more =>
    obtain ⟨rfl, -⟩ := List.cons.inj hnext
    obtain ⟨m, hm, _, ⟨dev, hdev, -⟩, -⟩ := Runs.append.mp h'.launched
    obtain rfl := hm.det h.launched
    have hfails : Except.ok dev = Except.error e := hdev.symm.trans he
    cases hfails

/-- A run of a pass launches a dispatch, after those that come before it. -/
def Launches (pass : Pass) (b : Backend α) (d : Dispatch α) : Prop :=
  ∃ first rest m dev, inPlayOrder pass (b.dispatches.get pass).toList = first ++ d :: rest ∧
    Runs first b m ∧ m.execute d = .ok dev

/-- By induction on the runs: each run of its pass moves a dispatch on by one. -/
theorem getElem?_forM_run {passes : List Pass} (h : passes.forM run b = .ok ⟨⟩ c) {position : Nat}
    (hd : (b.dispatches.get pass)[position]? = some d) :
    (c.dispatches.get pass)[position]? = some (d.advance (passes.count pass)) := by
  induction passes using List.reverseRecOn generalizing c with
  | nil =>
    obtain rfl := Call.forM_nil_ok_iff.mp h
    rw [List.count_nil, Dispatch.advance_zero, hd]
  | append_singleton passes last ih =>
    obtain ⟨m, hm, hlast⟩ := Call.forM_append_ok_iff.mp h
    obtain ⟨c', hrun, hc⟩ := Call.forM_cons_ok_iff.mp hlast
    obtain rfl := Call.forM_nil_ok_iff.mp hc
    rw [(run_ok hrun).2, List.count_append]
    by_cases heq : last = pass
    · subst heq
      rw [PerPass.get_modify_self, Array.getElem?_map, ih hm, List.count_singleton_self,
        Option.map_some, Dispatch.afterRun_advance]
    · have hnone : [last].count pass = 0 :=
        List.count_eq_zero_of_not_mem (by simpa using Ne.symm heq)
      rw [PerPass.get_modify_of_ne _ _ (Ne.symm heq), ih hm, hnone, Nat.add_zero]

theorem launches_of_run_ok (h : run pass b = .ok ⟨⟩ c) {position : Nat}
    (hd : (b.dispatches.get pass)[position]? = some d) : Launches pass b d := by
  have hmem : d ∈ inPlayOrder pass (b.dispatches.get pass).toList := by
    have hlist : d ∈ (b.dispatches.get pass).toList :=
      Array.mem_toList_iff.mpr (Array.mem_of_getElem? hd)
    cases pass with
    | backward => exact List.mem_reverse.mpr hlist
    | forward | update => exact hlist
  obtain ⟨first, rest, hsplit⟩ := List.append_of_mem hmem
  have hruns := (run_ok h).1
  rw [hsplit] at hruns
  obtain ⟨m, hm, _, ⟨dev, hdev, -⟩, -⟩ := Runs.append.mp hruns
  exact ⟨first, rest, m, dev, hsplit, hm, hdev⟩

/-- A pass launches its dispatches one after the other, backward from the last one on. It stops at
the first that fails, with the device as those before it have left it, and a run counted for each
of these. After any runs that succeed a dispatch counts from as far on as its pass has been run,
and so it was launched in each of them. -/
theorem run_plays (b : Backend α) :
    (∀ pass c, run pass b = .ok ⟨⟩ c ↔
      PlayedFirst pass (inPlayOrder pass (b.dispatches.get pass).toList) [] b c) ∧
    (∀ pass e c, run pass b = .error e c ↔
      ∃ first d rest, PlayedFirst pass first (d :: rest) b c ∧ c.execute d = .error e) ∧
    (∀ (passes : List Pass) c, passes.forM run b = .ok ⟨⟩ c →
      ∀ (pass : Pass) (position : Nat) d, (b.dispatches.get pass)[position]? = some d →
        (c.dispatches.get pass)[position]? = some (d.advance (passes.count pass)) ∧
        ∀ earlier later, passes = earlier ++ pass :: later →
          ∃ m, earlier.forM run b = .ok ⟨⟩ m ∧
            Launches pass m (d.advance (earlier.count pass))) := by
  refine ⟨fun pass c => ⟨PlayedFirst.of_run_ok, fun h => ?_⟩,
    fun pass e c => ⟨PlayedFirst.of_run_error, ?_⟩, fun passes c h pass position d hd => ⟨?_, ?_⟩⟩
  · cases hrun : run pass b with
    | ok u c' => rw [(PlayedFirst.of_run_ok hrun).unique h]
    | error e c' =>
      obtain ⟨first, d, rest, hplayed, he⟩ := PlayedFirst.of_run_error hrun
      have hle := hplayed.length_le he h
      rw [hplayed.order, List.length_append, List.length_cons] at hle
      omega
  · rintro ⟨first, d, rest, hplayed, he⟩
    cases hrun : run pass b with
    | ok u c' =>
      have hle := hplayed.length_le he (PlayedFirst.of_run_ok hrun)
      rw [hplayed.order, List.length_append, List.length_cons] at hle
      omega
    | error e' c' =>
      obtain ⟨first', d', rest', hplayed', he'⟩ := PlayedFirst.of_run_error hrun
      have hlength : first'.length = first.length :=
        le_antisymm (hplayed.length_le he hplayed') (hplayed'.length_le he' hplayed)
      obtain ⟨rfl, hrest⟩ := List.append_inj (hplayed'.order.symm.trans hplayed.order) hlength
      obtain ⟨rfl, -⟩ := List.cons.inj hrest
      obtain rfl := hplayed'.unique hplayed
      rw [Except.error.inj (he'.symm.trans he)]
  · exact getElem?_forM_run h hd
  · rintro earlier later rfl
    obtain ⟨m, hearlier, hlast⟩ := Call.forM_append_ok_iff.mp h
    obtain ⟨m', hrun, -⟩ := Call.forM_cons_ok_iff.mp hlast
    exact ⟨m, hearlier, launches_of_run_ok hrun (getElem?_forM_run hearlier hd)⟩

/-- Copies as many words as it has been run, from one word pair to another. -/
def growingCopy : Dispatch Binary32 where
  kernel := ⟨0⟩
  args := [.buffer ⟨0⟩, .buffer ⟨1⟩, .scalar (.int32 0)]
  launch := .single
  increment := some 2

def growingBackend : Backend Binary32 where
  device := { (Device.standard : Device Binary32) with
    memory := #[#[⟨0x3f800000⟩, ⟨0x40000000⟩], #[⟨0⟩, ⟨0⟩]] }
  registry := {}
  kernels := #[⟨"Copy", [], .copy⟩]
  buffers := #[⟨0, 0, 8, .readWrite, none⟩, ⟨1, 0, 8, .readWrite, none⟩]
  dispatches := { forward := #[], backward := #[growingCopy], update := #[] }

/-- Three runs copy no word, one word and both; a fourth would need a third word. -/
theorem growingBackend_plays : ∃ c, [Pass.backward, .backward, .backward].forM run growingBackend =
      .ok ⟨⟩ c ∧
    (c.dispatches.get .backward)[0]? = some { growingCopy with
      args := [.buffer ⟨0⟩, .buffer ⟨1⟩, .scalar (.int32 3)] } ∧
    ∃ m, [Pass.backward, .backward].forM run growingBackend = .ok ⟨⟩ m ∧
      Launches .backward m { growingCopy with
        args := [.buffer ⟨0⟩, .buffer ⟨1⟩, .scalar (.int32 2)] } := by
  have hruns : [Pass.backward, .backward, .backward].forM run growingBackend = .ok ⟨⟩
      (Call.after ([Pass.backward, .backward, .backward].forM run) growingBackend) :=
    Call.ok_of_isOk (by decide +kernel)
  obtain ⟨hlast, hearlier⟩ := (run_plays growingBackend).2.2 _ _ hruns .backward 0 growingCopy rfl
  exact ⟨_, hruns, hlast, hearlier [.backward, .backward] [] rfl⟩

end Backend

end Backprop
