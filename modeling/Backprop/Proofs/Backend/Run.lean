import Mathlib
import Backprop.Proofs.Backend.Execution

/-! Runs of a pass as chains of executions, one for each dispatch of its list, and what they make
of the dispatches. -/

namespace Backprop

namespace PerPass

variable {β : Type} {p : PerPass β} {pass : Pass} {f g : β → β}

theorem modify_congr (h : f (p.get pass) = g (p.get pass)) : p.modify pass f = p.modify pass g := by
  cases pass <;> simp_all [modify, get]

theorem modify_eq_self (h : f (p.get pass) = p.get pass) : p.modify pass f = p := by
  cases pass <;> simp_all [modify, get]

theorem modify_modify (p : PerPass β) (pass : Pass) (f g : β → β) :
    (p.modify pass f).modify pass g = p.modify pass fun x => g (f x) := by
  cases pass <;> rfl

end PerPass

variable {α : Type} [Scalar α]

def Dispatch.Counted (d e : Dispatch α) : Prop := ∃ runs, e = Dispatch.afterRun^[runs] d

namespace Dispatch

variable {d e : Dispatch α}

theorem Counted.refl (d : Dispatch α) : d.Counted d := ⟨0, rfl⟩

theorem Counted.next (h : d.Counted e) : d.Counted e.afterRun := by
  obtain ⟨runs, rfl⟩ := h
  exact ⟨runs + 1, (Function.iterate_succ_apply' _ _ _).symm⟩

@[simp] theorem afterRun_kernel (d : Dispatch α) : d.afterRun.kernel = d.kernel := by
  unfold afterRun
  split <;> rfl

theorem Counted.trans {f : Dispatch α} (h : d.Counted e) (h' : e.Counted f) : d.Counted f := by
  obtain ⟨runs, rfl⟩ := h
  obtain ⟨more, rfl⟩ := h'
  exact ⟨more + runs, (Function.iterate_add_apply _ _ _ _).symm⟩

theorem Counted.trans_lists {ds es fs : List (Dispatch α)} (h : List.Forall₂ Counted ds es)
    (h' : List.Forall₂ Counted es fs) : List.Forall₂ Counted ds fs := by
  induction h generalizing fs with
  | nil => exact h'
  | cons hd _ ih =>
    obtain ⟨f, rest, he, hrest, rfl⟩ := List.forall₂_cons_left_iff.mp h'
    exact .cons (hd.trans he) (ih hrest)

theorem buffer_of_afterRun {i : Nat} {k : BufferId} (h : d.afterRun.args[i]? = some (.buffer k)) :
    d.args[i]? = some (.buffer k) := by
  unfold afterRun at h
  split at h
  · simp only [List.getElem?_modify] at h
    obtain ⟨arg, harg, hnext⟩ := Option.map_eq_some_iff.mp h
    refine harg.trans (congrArg some ?_)
    split at hnext
    · cases arg with
      | scalar s => cases hnext
      | buffer l => exact hnext
      | blob bytes => exact hnext
    · exact hnext
  · exact h

theorem Counted.buffer_at (h : d.Counted e) {i : Nat} {k : BufferId}
    (hk : e.args[i]? = some (.buffer k)) : d.args[i]? = some (.buffer k) := by
  obtain ⟨runs, rfl⟩ := h
  induction runs with
  | zero => exact hk
  | succ runs ih =>
    rw [Function.iterate_succ_apply'] at hk
    exact ih (buffer_of_afterRun hk)

theorem Counted.kernel (h : d.Counted e) : e.kernel = d.kernel := by
  obtain ⟨runs, rfl⟩ := h
  induction runs with
  | zero => rfl
  | succ runs ih => rw [Function.iterate_succ_apply', afterRun_kernel, ih]

theorem Counted.buffer_mem (h : d.Counted e) {k : BufferId} (hk : .buffer k ∈ e.args) :
    .buffer k ∈ d.args := by
  obtain ⟨i, hi⟩ := List.getElem?_of_mem hk
  exact List.mem_of_getElem? (h.buffer_at hi)

theorem Counted.eq_of_plain (h : d.Counted e) (plain : d.increment = none) : e = d := by
  obtain ⟨runs, rfl⟩ := h
  refine Function.iterate_fixed ?_ runs
  unfold afterRun
  rw [plain]

end Dispatch

namespace Backend

/-- The backend after a dispatch has been executed. -/
def Executes (d : Dispatch α) (b c : Backend α) : Prop :=
  ∃ dev, b.execute d = .ok dev ∧ c = { b with device := dev }

def Runs : List (Dispatch α) → Backend α → Backend α → Prop
  | [], b, c => c = b
  | d :: ds, b, c => ∃ m, Executes d b m ∧ Runs ds m c

def inPlayOrder (pass : Pass) (ds : List (Dispatch α)) : List (Dispatch α) :=
  match pass with
  | .backward => ds.reverse
  | .forward | .update => ds

theorem Runs.append {ds es : List (Dispatch α)} {b c : Backend α} :
    Runs (ds ++ es) b c ↔ ∃ m, Runs ds b m ∧ Runs es m c := by
  induction ds generalizing b with
  | nil => simp [Runs]
  | cons d ds ih =>
    simp only [List.cons_append, Runs, ih]
    constructor
    · rintro ⟨m, hm, m', hd, he⟩
      exact ⟨m', ⟨m, hm, hd⟩, he⟩
    · rintro ⟨m', ⟨m, hm, hd⟩, he⟩
      exact ⟨m, hm, m', hd, he⟩

theorem Executes.same {d : Dispatch α} {b c : Backend α} (h : Executes d b c) :
    b.SameButDevice c := by
  obtain ⟨dev, -, rfl⟩ := h
  rfl

theorem Runs.same {ds : List (Dispatch α)} {b c : Backend α} (h : Runs ds b c) :
    b.SameButDevice c := by
  induction ds generalizing b with
  | nil =>
    rw [h]
    exact .refl b
  | cons d ds ih =>
    obtain ⟨m, hm, hr⟩ := h
    exact hm.same.trans (ih hr)

theorem Executes.sizes {d : Dispatch α} {b c : Backend α} (h : Executes d b c) :
    c.device.sizes = b.device.sizes := by
  obtain ⟨dev, he, rfl⟩ := h
  obtain ⟨compiled, ws, -, -, -, rfl⟩ := execute_ok_iff.mp he
  exact sizes_foldl_putBack d.args b ws

theorem Runs.sizes {ds : List (Dispatch α)} {b c : Backend α} (h : Runs ds b c) :
    c.device.sizes = b.device.sizes := by
  induction ds generalizing b with
  | nil => rw [h]
  | cons d ds ih =>
    obtain ⟨m, hm, hr⟩ := h
    exact (ih hr).trans hm.sizes

theorem play_ok_iff {pass : Pass} {position : Nat} {b c : Backend α} :
    play pass position b = .ok () c ↔
      ((b.dispatches.get pass)[position]? = none ∧ c = b) ∨
      ∃ d dev, (b.dispatches.get pass)[position]? = some d ∧ b.execute d = .ok dev ∧
        c = { b with
          device := dev
          dispatches := b.dispatches.modify pass (·.modify position (·.afterRun)) } := by
  simp only [play, Call.get_bind_ok_iff]
  cases hd : (b.dispatches.get pass)[position]? with
  | none => simp [Call.pure_ok_iff, eq_comm]
  | some d =>
    simp only [Call.bind_ok_iff, Call.ofExcept_ok_iff, Call.set_ok_iff]
    constructor
    · rintro ⟨dev, _, ⟨he, rfl⟩, rfl⟩
      exact .inr ⟨d, dev, rfl, he, rfl⟩
    · rintro (⟨hn, -⟩ | ⟨_, dev, ⟨⟩, he, rfl⟩)
      · cases hn
      · exact ⟨dev, b, ⟨he, rfl⟩, rfl⟩

theorem Runs.withDispatches {ds : List (Dispatch α)} {b c : Backend α} (h : Runs ds b c)
    (lists : PerPass (Array (Dispatch α))) :
    Runs ds { b with dispatches := lists } { c with dispatches := lists } := by
  induction ds generalizing b with
  | nil => rw [show c = b from h]; rfl
  | cons d ds ih =>
    obtain ⟨_, ⟨dev, he, rfl⟩, hrest⟩ := h
    exact ⟨_, ⟨dev, he, rfl⟩, ih hrest⟩

theorem forM_play_ok {pass : Pass} {positions : List Nat} (nodup : positions.Nodup)
    {b c : Backend α} (h : positions.forM (play pass) b = .ok () c) :
    Runs (positions.filterMap ((b.dispatches.get pass)[·]?)) b
        { c with dispatches := b.dispatches } ∧
      c.dispatches = b.dispatches.modify pass fun ds =>
        ds.mapIdx fun i d => if i ∈ positions then d.afterRun else d := by
  induction positions generalizing b with
  | nil =>
    obtain rfl := Call.forM_nil_ok_iff.mp h
    refine ⟨rfl, (PerPass.modify_eq_self ?_).symm⟩
    exact Array.ext_getElem? fun i => by simp
  | cons p positions ih =>
    obtain ⟨hfresh, hnodup⟩ := List.nodup_cons.mp nodup
    obtain ⟨m, hm, hrest⟩ := Call.forM_cons_ok_iff.mp h
    obtain ⟨hruns, hlists⟩ := ih hnodup hrest
    obtain ⟨hd, rfl⟩ | ⟨d, dev, hd, he, rfl⟩ := play_ok_iff.mp hm
    · refine ⟨by rwa [List.filterMap_cons_none hd], hlists.trans (PerPass.modify_congr ?_)⟩
      refine Array.ext_getElem? fun i => ?_
      by_cases hi : i = p
      · subst hi
        simp [hd]
      · simp [hi]
    · have hsame : positions.filterMap (((b.dispatches.modify pass
          (·.modify p (·.afterRun))).get pass)[·]?) =
            positions.filterMap ((b.dispatches.get pass)[·]?) := by
        refine List.filterMap_congr fun i hi => ?_
        have hne : p ≠ i := fun heq => hfresh (heq ▸ hi)
        simp [Array.getElem?_modify, hne]
      rw [hsame] at hruns
      refine ⟨?_, hlists.trans ?_⟩
      · rw [List.filterMap_cons_some hd]
        exact ⟨_, ⟨dev, he, rfl⟩, hruns.withDispatches b.dispatches⟩
      · rw [PerPass.modify_modify]
        refine PerPass.modify_congr (Array.ext_getElem? fun i => ?_)
        by_cases hi : p = i
        · subst hi
          simp [Array.getElem?_modify, hfresh, Function.comp_def]
        · simp [Array.getElem?_modify, hi, Ne.symm hi]

omit [Scalar α] in
theorem filterMap_getElem?_range (ds : Array (Dispatch α)) :
    (List.range ds.size).filterMap (ds[·]?) = ds.toList := by
  have hall : ∀ n ≤ ds.size, (List.range n).filterMap (ds[·]?) = ds.toList.take n := by
    intro n hn
    induction n with
    | zero => simp
    | succ n ih =>
      have hlt : n < ds.size := by omega
      rw [List.range_succ, List.filterMap_append, ih (by omega), List.take_add_one]
      simp [hlt]
  rw [hall ds.size le_rfl, List.take_of_length_le (by simp)]

omit [Scalar α] in
theorem filterMap_playOrder (pass : Pass) (ds : Array (Dispatch α)) :
    (playOrder pass ds.size).filterMap (ds[·]?) = inPlayOrder pass ds.toList := by
  cases pass with
  | backward => rw [playOrder, inPlayOrder, List.filterMap_reverse, filterMap_getElem?_range]
  | forward | update => exact filterMap_getElem?_range ds

theorem mem_playOrder {pass : Pass} {n i : Nat} : i ∈ playOrder pass n ↔ i < n := by
  cases pass <;> simp [playOrder]

theorem nodup_playOrder (pass : Pass) (n : Nat) : (playOrder pass n).Nodup := by
  cases pass with
  | backward => exact List.nodup_reverse.mpr List.nodup_range
  | forward | update => exact List.nodup_range

/-- A pass plays its list in order, and each dispatch counts one run. -/
theorem run_ok {pass : Pass} {b c : Backend α} (h : run pass b = .ok () c) :
    Runs (inPlayOrder pass (b.dispatches.get pass).toList) b { c with dispatches := b.dispatches } ∧
      c.dispatches = b.dispatches.modify pass (·.map (·.afterRun)) := by
  rw [run, Call.get_bind_ok_iff] at h
  obtain ⟨hruns, hlists⟩ := forM_play_ok (nodup_playOrder pass _) h
  refine ⟨?_, hlists.trans (PerPass.modify_congr (Array.ext_getElem? fun i => ?_))⟩
  · rwa [filterMap_playOrder] at hruns
  · rw [Array.getElem?_mapIdx, Array.getElem?_map]
    cases hd : (b.dispatches.get pass)[i]? with
    | none => rfl
    | some d =>
      have hi : i ∈ playOrder pass (b.dispatches.get pass).size :=
        mem_playOrder.mpr (Array.getElem?_eq_some_iff.mp hd).1
      simp only [Option.map_some, if_pos hi]

theorem run_ok_runs {pass : Pass} {b c : Backend α}
    (plain : ∀ d ∈ b.dispatches.get pass, d.increment = none) (h : run pass b = .ok () c) :
    Runs (inPlayOrder pass (b.dispatches.get pass).toList) b c := by
  obtain ⟨hruns, hlists⟩ := run_ok h
  have hself : (b.dispatches.get pass).map (·.afterRun) = b.dispatches.get pass := by
    refine (Array.map_congr_left fun d hd => ?_).trans (Array.map_id _)
    simp [Dispatch.afterRun, plain d hd]
  rw [PerPass.modify_eq_self hself] at hlists
  have hc : { c with dispatches := b.dispatches } = c := by rw [← hlists]
  rwa [hc] at hruns

theorem Runs.of_forall {P : Backend α → Prop} {ds : List (Dispatch α)} {b : Backend α}
    (step : ∀ d ∈ ds, ∀ b, P b → ∃ c, Executes d b c ∧ P c) (start : P b) :
    ∃ c, Runs ds b c ∧ P c := by
  induction ds generalizing b with
  | nil => exact ⟨b, rfl, start⟩
  | cons d ds ih =>
    obtain ⟨m, hm, hP⟩ := step d List.mem_cons_self b start
    obtain ⟨c, hr, hc⟩ := ih (fun e he => step e (List.mem_cons_of_mem _ he)) hP
    exact ⟨c, ⟨m, hm, hr⟩, hc⟩

theorem forM_play_of_runs {pass : Pass} {positions : List Nat} {b c : Backend α}
    (plain : ∀ d ∈ b.dispatches.get pass, d.increment = none)
    (h : Runs (positions.filterMap ((b.dispatches.get pass)[·]?)) b c) :
    positions.forM (play pass) b = .ok () c := by
  induction positions generalizing b with
  | nil => exact Call.forM_nil_ok_iff.mpr h
  | cons p positions ih =>
    cases hd : (b.dispatches.get pass)[p]? with
    | none =>
      rw [List.filterMap_cons_none hd] at h
      exact Call.forM_cons_ok_iff.mpr ⟨b, play_ok_iff.mpr (.inl ⟨hd, rfl⟩), ih plain h⟩
    | some d =>
      rw [List.filterMap_cons_some hd] at h
      obtain ⟨_, ⟨dev, he, rfl⟩, hrest⟩ := h
      have hself : b.dispatches.modify pass (·.modify p (·.afterRun)) = b.dispatches := by
        refine PerPass.modify_eq_self (Array.ext_getElem? fun i => ?_)
        rw [Array.getElem?_modify]
        split
        · next hi =>
          subst hi
          rw [hd, Option.map_some, Dispatch.afterRun, plain d (Array.mem_of_getElem? hd)]
        · rfl
      refine Call.forM_cons_ok_iff.mpr ⟨_, play_ok_iff.mpr (.inr ⟨d, dev, hd, he, rfl⟩), ?_⟩
      rw [hself]
      exact ih plain hrest

theorem run_of_runs {pass : Pass} {b c : Backend α}
    (plain : ∀ d ∈ b.dispatches.get pass, d.increment = none)
    (h : Runs (inPlayOrder pass (b.dispatches.get pass).toList) b c) : run pass b = .ok () c := by
  rw [run, Call.get_bind_ok_iff]
  refine forM_play_of_runs plain ?_
  rwa [filterMap_playOrder]

end Backend

end Backprop
