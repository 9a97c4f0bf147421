import Mathlib
import Backprop.Proofs.Network.FailedWrites
import Backprop.Proofs.Network.Twins
import Backprop.Proofs.Snapshot

/-! Snapshots of compiled networks: what one network has saved is found again in another that the
same calls have built, unless the values saved hold what looks like a record. -/

namespace Backprop.Network

variable {α : Type} {m m' : Network α}

/-! ### Names -/

def named (n : Network α) (names : List (TensorId × String)) : Network α :=
  names.foldl (fun n p => Call.after (nameTensor p.1 p.2) n) n

theorem named_nil (n : Network α) : n.named [] = n := rfl

theorem after_nameTensor (n : Network α) (id : TensorId) (name : String) :
    Call.after (nameTensor id name) n = if Snapshot.isName name then
      { n with tensors := n.tensors.modify id.index ({ · with name := some name }) } else n := by
  have hcheck : (name.isEmpty || name.toList.contains '\n') = !Snapshot.isName name := by
    rw [Snapshot.isName, Bool.not_and, Bool.not_not, Bool.not_not]
  unfold nameTensor
  rw [hcheck]
  cases Snapshot.isName name with
  | false => rfl
  | true =>
    cases ht : n.tensors[id.index]? with
    | some t =>
      have htensor : n.tensor id = .ok t := tensor_ok_iff.mpr ht
      refine Call.after_of_ok (b := ⟨⟩) ?_
      simp only [Call.discard_eq, Call.throw_ite_ok_iff, Call.bind_ok_iff, Call.get_ok_iff,
        Call.ofExcept_ok_iff, Call.pure_ok_iff, modifyTensor, Call.modify_ok_iff]
      exact ⟨by simp, n, n, ⟨rfl, rfl⟩, ⟨⟩, n, ⟨t, n, ⟨htensor, rfl⟩, trivial, rfl⟩, rfl⟩
    | none =>
      have hsame : n.tensors.modify id.index ({ · with name := some name }) = n.tensors := by
        refine Array.ext_getElem? fun i => ?_
        rw [Array.getElem?_modify]
        split
        · next heq => rw [← heq, ht, Option.map_none]
        · rfl
      have htensor : n.tensor id = .error (.unknownTensor id.index) := by rw [tensor, ht]
      have herror : (do
          if (!true) = true then throw (.badTensorName name)
          discard <| ofExcept ((← get).tensor id)
          modifyTensor id ({ · with name := some name }) : Call α Unit) n =
            .error (.unknownTensor id.index) n := by
        simp only [Call.discard_eq, Call.throw_ite_error_iff, Call.bind_error_iff,
          Call.get_error_iff, Call.get_ok_iff, Call.ofExcept_error_iff]
        exact .inr ⟨by simp, .inr ⟨n, n, ⟨rfl, rfl⟩, .inl (.inl ⟨htensor, rfl⟩)⟩⟩
      rw [Call.after, herror, hsame]
      rfl

def unnamed (t : Tensor) : Tensor := { t with name := none }

/-- The networks differ in the names of tensors at most. -/
def Renamed (m m' : Network α) : Prop :=
  ∃ ts, m' = { m with tensors := ts } ∧ ts.map unnamed = m.tensors.map unnamed

theorem Renamed.trans {m'' : Network α} (h : Renamed m m') (h' : Renamed m' m'') :
    Renamed m m'' := by
  obtain ⟨ts, rfl, hts⟩ := h
  obtain ⟨ts', rfl, hts'⟩ := h'
  exact ⟨ts', rfl, hts'.trans hts⟩

theorem renamed_named (n : Network α) (names : List (TensorId × String)) :
    Renamed n (n.named names) := by
  induction names generalizing n with
  | nil => exact ⟨n.tensors, rfl, rfl⟩
  | cons p names ih =>
    refine .trans ?_ (ih (Call.after (nameTensor p.1 p.2) n))
    rw [after_nameTensor]
    split
    · refine ⟨_, rfl, Array.ext_getElem? fun i => ?_⟩
      rw [Array.getElem?_map, Array.getElem?_map, Array.getElem?_modify]
      split
      · rw [Option.map_map]
        rfl
      · rfl
    · exact ⟨n.tensors, rfl, rfl⟩

theorem Renamed.tensor (h : Renamed m m') {i : Nat} {t : Tensor} (ht : m'.tensors[i]? = some t) :
    ∃ name, m.tensors[i]? = some { t with name := name } := by
  obtain ⟨ts, rfl, hts⟩ := h
  have hi := congrArg (·[i]?) hts
  simp only [Array.getElem?_map] at hi
  simp only at ht
  rw [ht, Option.map_some, eq_comm, Option.map_eq_some_iff] at hi
  obtain ⟨u, hu, heq⟩ := hi
  refine ⟨u.name, hu.trans ?_⟩
  obtain ⟨kind, shape, sequence, timeOffset, cursor, name, producer, consumers, forward, backward,
    auxiliary⟩ := u
  simp only [unnamed, Tensor.mk.injEq, true_and] at heq
  obtain ⟨rfl, rfl, rfl, rfl, rfl, rfl, rfl, rfl, rfl, rfl⟩ := heq
  rfl

theorem Arranged.renamed [Zero α] {auxiliary : Nat} {allocation : Nat → Side → Nat}
    (ha : Arranged m auxiliary allocation) (h : Renamed m m') :
    Arranged m' auxiliary allocation := by
  have htensor := @Renamed.tensor _ _ _ h
  obtain ⟨ts, rfl, hts⟩ := h
  have hsize : ts.size = m.tensors.size := by
    have hh := congrArg Array.size hts
    rwa [Array.size_map, Array.size_map] at hh
  obtain ⟨⟨floor, hlayout⟩, hblank, hauxiliary⟩ := ha
  refine ⟨⟨floor, ?_⟩, fun i t side ht hl hk => ?_, fun i t k w ht hk hw => ?_⟩
  · refine
      { stored := fun i t hi ht => ?_
        above := fun i side hi => hlayout.above i side (hsize ▸ hi)
        below := fun i t side hi ht hl => ?_
        apart := fun i j t u side other hi hj ht hu hl hl' => ?_
        auxiliary := fun i t k w hi ht hk hw => ?_ }
    · obtain ⟨name, ht⟩ := htensor ht
      have hstored := hlayout.stored i _ (hsize ▸ hi) ht
      exact ⟨hstored.occupies, hstored.apart, hstored.dead, hstored.size_auxiliary,
        hstored.auxiliary⟩
    · obtain ⟨name, ht⟩ := htensor ht
      exact hlayout.below i _ side (hsize ▸ hi) ht hl
    · obtain ⟨name, ht⟩ := htensor ht
      obtain ⟨name', hu⟩ := htensor hu
      exact hlayout.apart i j _ _ side other (hsize ▸ hi) (hsize ▸ hj) ht hu hl hl'
    · obtain ⟨name, ht⟩ := htensor ht
      obtain ⟨hle, hlt, happ⟩ := hlayout.auxiliary i _ k w (hsize ▸ hi) ht hk hw
      refine ⟨hle, hlt, fun j u side hj hu hl => ?_⟩
      obtain ⟨name', hu⟩ := htensor hu
      exact happ j _ side (hsize ▸ hj) hu hl
  · obtain ⟨name, ht⟩ := htensor ht
    exact hblank i _ side ht hl hk
  · obtain ⟨name, ht⟩ := htensor ht
    exact hauxiliary i _ k w ht hk hw

theorem unstored_modify (n : Network α) (id : TensorId) (name : String) :
    unstored { n with tensors := n.tensors.modify id.index ({ · with name := some name }) } =
      n.unstored.modify id.index ({ · with name := some name }) := by
  refine Array.ext_getElem? fun i => ?_
  simp only [unstored, Array.getElem?_map, Array.getElem?_modify]
  split
  · rw [Option.map_map, Option.map_map]
    rfl
  · rfl

theorem named_unstored (h : m'.unstored = m.unstored) (names : List (TensorId × String)) :
    (m'.named names).unstored = (m.named names).unstored := by
  induction names generalizing m m' with
  | nil => exact h
  | cons p names ih =>
    have hnext : (Call.after (nameTensor p.1 p.2) m').unstored =
        (Call.after (nameTensor p.1 p.2) m).unstored := by
      rw [after_nameTensor, after_nameTensor]
      split
      · rw [unstored_modify, unstored_modify, h]
      · exact h
    exact ih hnext

/-! ### Records -/

def label (n : Network α) (id : TensorId) : Option String := n.tensors[id.index]?.bind (·.name)

def record (k : Network Binary32) (id : TensorId) : String × List Binary32 :=
  ((k.label id).getD "", (k.values k.backend ⟨id.index, .forward, 0⟩).toList)

theorem record_fst {k : Network Binary32} {id : TensorId} {name : String}
    (h : k.label id = some name) : (k.record id).1 = name := by
  rw [record, h, Option.getD_some]

theorem SharesStorage.handle {k : Network α} (h : m.SharesStorage k) (q : Place) :
    k.handle q = m.handle q := by
  rw [Network.handle, Network.handle, handle?, handle?, h.tensors]

theorem SharesStorage.put {k : Network α} (h : m.SharesStorage k) (l : BufferId)
    (data : Array α) : m.SharesStorage { k with backend := k.backend.put l data } where
  stage := h.stage
  tensors := h.tensors
  buffers := (Backend.buffers_put _ _ _).trans h.buffers
  sizes := (Backend.sizes_put _ _ _).trans h.sizes

section

variable {p k : Network Binary32} {auxiliary : Nat} {allocation : Nat → Side → Nat}
  (ha : Arranged p auxiliary allocation)
  (pos : ∀ (i : Nat) (t : Tensor), p.tensors[i]? = some t → 0 < t.slotCount)

include ha pos

theorem Arranged.length_record (hk : p.SharesStorage k) {id : TensorId} {t : Tensor}
    (ht : p.tensors[id.index]? = some t) : (k.record id).2.length = t.shape.elements := by
  obtain ⟨-, stride, -, hslots⟩ := ha.side ht t.lives_forward
  obtain ⟨-, hr, hw⟩ := hslots 0 (pos _ t ht)
  rw [record, values, hk.handle, Array.length_toList,
    Backend.size_contents_congr hr hk.buffers hk.sizes, Backend.contents, hw]
  obtain ⟨w, hw', hholds⟩ := hr.window?
  rw [hw] at hw'
  cases hw'
  exact Device.size_words hholds

theorem Arranged.snapshotRecord_ok (hk : p.SharesStorage k) {id : TensorId} {name : String}
    (hname : k.label id = some name) : snapshotRecord id k = .ok (k.record id) k := by
  obtain ⟨t, ht, htname⟩ := Option.bind_eq_some_iff.mp hname
  rw [hk.tensors] at ht
  have hread := ha.readTensor_ok hk ht (pos _ t ht) fun _ => rfl
  have htensor : k.tensor id = .ok t := by rw [tensor_ok_iff, hk.tensors, ht]
  simp only [snapshotRecord, Call.bind_ok_iff, Call.get_ok_iff, Call.ofExcept_ok_iff]
  refine ⟨k, k, ⟨rfl, rfl⟩, t, k, ⟨htensor, rfl⟩, ?_⟩
  rw [htname]
  simp only [Call.bind_ok_iff, Call.pure_ok_iff]
  refine ⟨_, k, hread, ?_, rfl⟩
  rw [record, hname, Option.getD_some, values, values, hk.handle]

theorem Arranged.saveSnapshot_ok (hk : p.SharesStorage k) {ids : List TensorId}
    (accepted : ∀ id ∈ ids, ∃ name, k.label id = some name ∧ Snapshot.isName name) :
    saveSnapshot ids k = .ok (Snapshot.stream (ids.map k.record)) k := by
  have hrecords : ∀ l : List TensorId, (∀ id ∈ l, ∃ name, k.label id = some name) →
      l.mapM snapshotRecord k = .ok (l.map k.record) k := by
    intro l hl
    induction l with
    | nil => exact Call.mapM_nil_ok_iff.mpr ⟨rfl, rfl⟩
    | cons id l ih =>
      obtain ⟨name, hname⟩ := hl id List.mem_cons_self
      exact Call.mapM_cons_ok_iff.mpr ⟨_, k, _, ha.snapshotRecord_ok pos hk hname,
        ih fun id hid => hl id (List.mem_cons_of_mem _ hid), rfl⟩
  have hsave : Snapshot.save (ids.map k.record) = .ok (Snapshot.stream (ids.map k.record)) := by
    refine Snapshot.save_eq fun r hr => ?_
    obtain ⟨id, hid, rfl⟩ := List.mem_map.mp hr
    obtain ⟨name, hname, hgood⟩ := accepted id hid
    rwa [record_fst hname]
  simp only [saveSnapshot, Call.bind_ok_iff, requireCompiled_ok_iff, Call.ofExcept_ok_iff]
  exact ⟨⟨⟩, k, ⟨hk.stage, rfl⟩, _, k, hrecords ids fun id hid => (accepted id hid).imp fun _ h => h.1,
    hsave, rfl⟩

theorem Arranged.restoreTensor_ok (hk : p.SharesStorage k) {stream : Bytes} {id : TensorId}
    {t : Tensor} {name : String} {found : List Binary32} (ht : p.tensors[id.index]? = some t)
    (hname : t.name = some name) (hfind : Snapshot.find stream name t.shape.elements = .ok found)
    (hlength : found.length = t.shape.elements) :
    restoreTensor stream id k = .ok ⟨⟩ { k with
      backend := k.backend.put (p.handle ⟨id.index, .forward, 0⟩) found.toArray } := by
  have htensor : k.tensor id = .ok t := by rw [tensor_ok_iff, hk.tensors, ht]
  simp only [restoreTensor, Call.bind_ok_iff, Call.get_ok_iff, Call.ofExcept_ok_iff]
  refine ⟨k, k, ⟨rfl, rfl⟩, t, k, ⟨htensor, rfl⟩, ?_⟩
  rw [hname]
  simp only [Call.bind_ok_iff, Call.ofExcept_ok_iff]
  exact ⟨found, k, ⟨hfind, rfl⟩, ha.writeTensor_ok hk ht (pos _ t ht) (fun _ => rfl) hlength⟩

/-- By induction on the tensors: each is restored, and none touches another. -/
theorem Arranged.forM_restoreTensor_ok (hk : p.SharesStorage k) {stream : Bytes}
    {ids : List TensorId} (found : TensorId → List Binary32) (distinct : ids.Nodup)
    (finds : ∀ id ∈ ids, ∃ t name, p.tensors[id.index]? = some t ∧ t.name = some name ∧
      Snapshot.find stream name t.shape.elements = .ok (found id) ∧
      (found id).length = t.shape.elements) :
    ∃ k', ids.forM (restoreTensor stream) k = .ok ⟨⟩ k' ∧ p.SharesStorage k' ∧
      (∀ id ∈ ids, p.values k'.backend ⟨id.index, .forward, 0⟩ = (found id).toArray) ∧
      ∀ q, p.Has q → (∀ id ∈ ids, q ≠ ⟨id.index, .forward, 0⟩) →
        p.values k'.backend q = p.values k.backend q := by
  induction ids generalizing k with
  | nil => exact ⟨k, Call.forM_nil_ok_iff.mpr rfl, hk, by simp, fun _ _ _ => rfl⟩
  | cons id ids ih =>
    obtain ⟨hnew, hnodup⟩ := List.nodup_cons.mp distinct
    obtain ⟨t, name, ht, hname, hfind, hlength⟩ := finds id List.mem_cons_self
    have hfirst := ha.restoreTensor_ok pos hk ht hname hfind hlength
    have hhas : p.Has ⟨id.index, .forward, 0⟩ := ⟨t, ht, t.lives_forward, pos _ t ht⟩
    obtain ⟨k', hothers, hk', hrestored, hrest⟩ :=
      ih (hk.put _ _) hnodup fun id hid => finds id (List.mem_cons_of_mem _ hid)
    have hr := (ha.resolves hhas).congr hk.buffers hk.sizes
    have hsize : (found id).toArray.size = (p.values k.backend ⟨id.index, .forward, 0⟩).size := by
      have hrecord := ha.length_record pos hk ht
      rw [record, values, hk.handle, Array.length_toList] at hrecord
      rw [List.size_toArray, hlength, values, hrecord]
    refine ⟨k', Call.forM_cons_ok_iff.mpr ⟨_, hfirst, hothers⟩, hk', ?_, fun q hq hne => ?_⟩
    · rintro x hx
      obtain rfl | hx := List.mem_cons.mp hx
      · refine (hrest _ hhas fun y hy heq => hnew ?_).trans (Backend.contents_put_self hr hsize)
        obtain ⟨i⟩ := x
        obtain ⟨j⟩ := y
        cases heq
        exact hy
      · exact hrestored x hx
    · rw [hrest q hq fun y hy => hne y (List.mem_cons_of_mem _ hy)]
      refine Backend.contents_put_apart hr ?_ hsize
      exact (ha.apart hhas hq (hne id List.mem_cons_self).symm).congr hk.buffers

end

/-! ### Saving and loading -/

theorem Used.shares {m k : Network Binary32} (used : m.Used k) (stage : m.stage = .compiled) :
    m.SharesStorage k where
  stage := by rw [used.same, stage]
  tensors := by rw [used.same]
  buffers := used.later.buffers
  sizes := used.later.sizes

theorem Assembled.named_arranged {b : Backend Binary32} {config : NetworkConfig}
    {n m : Network Binary32} {batch : Nat} (idle : b.Idle)
    (built : Assembled (Network.new b config) n) (compiled : compile batch n = .ok ⟨⟩ m)
    (names : List (TensorId × String)) :
    (m.named names).stage = .compiled ∧
      (∀ (i : Nat) (t : Tensor), (m.named names).tensors[i]? = some t → 0 < t.slotCount) ∧
      ∃ auxiliary allocation, Arranged (m.named names) auxiliary allocation := by
  have hout := built.outline
  have hc := compile_ok hout ⟨idle.dispatches, idle.sound⟩ compiled
  obtain ⟨allocation, ha⟩ := hc.arranged
  have hrenamed := renamed_named m names
  refine ⟨?_, fun i t ht => ?_, _, allocation, ha.renamed hrenamed⟩
  · obtain ⟨ts, hts, -⟩ := hrenamed
    rw [hts, ← hc.stage]
  · obtain ⟨name, ht⟩ := hrenamed.tensor ht
    have hsequence := hc.expanded.sequence_pos hout ht
    exact Tensor.slotCount_pos (t := t) hsequence

theorem tensor_of_unstored {m m' : Network α} (h : m'.unstored = m.unstored) {i : Nat} {t : Tensor}
    (ht : m.tensors[i]? = some t) :
    ∃ t', m'.tensors[i]? = some t' ∧ t'.name = t.name ∧ t'.shape = t.shape := by
  have hi := congrArg (·[i]?) h
  simp only [unstored, Array.getElem?_map, ht, Option.map_some, Option.map_eq_some_iff] at hi
  obtain ⟨t', ht', heq⟩ := hi
  simp only [Tensor.mk.injEq] at heq
  exact ⟨t', ht', heq.2.2.2.2.2.1, heq.2.1⟩

/-- The record of a tensor is found among those of others, unless a payload masks it. -/
theorem find_record {k : Network Binary32} {ids before after : List TensorId} {id : TensorId}
    (accepted : ∀ id ∈ ids, ∃ name, k.label id = some name ∧ Snapshot.isName name)
    (distinct : (ids.map k.label).Nodup) (split : ids = before ++ id :: after)
    (clear : ¬Snapshot.Masked (before.map k.record) (k.record id) (after.map k.record)) :
    Snapshot.find (Snapshot.stream (ids.map k.record)) (k.record id).1 (k.record id).2.length =
      .ok (k.record id).2 := by
  obtain ⟨name, hname, hgood⟩ := accepted id (by simp [split])
  rw [split, List.map_append, List.map_cons]
  refine Snapshot.find_stream (by rwa [record_fst hname]) (fun r hr => ?_) clear
  obtain ⟨x, hx, rfl⟩ := List.mem_map.mp hr
  obtain ⟨other, hother, hgood'⟩ := accepted x (by simp [split, hx])
  rw [split, List.map_append, List.map_cons, List.nodup_append] at distinct
  have hne := distinct.2.2 _ (List.mem_map_of_mem hx) _ List.mem_cons_self
  rw [record_fst hother, record_fst hname]
  exact ⟨hgood', fun heq => hne (by rw [hother, hname, heq])⟩

/-- What is saved of a compiled network, at any time of its use, can be loaded into any network that
the same calls have built and compiled, on whatever backend. Each tensor then holds bit for bit what
was saved of it, unless a payload before its record holds a line that counts as the start of the
record. -/
theorem SameCalls.snapshot_restores {b b' : Backend Binary32} {config config' : NetworkConfig}
    {n n' m m' k k' : Network Binary32} {batch : Nat} {names : List (TensorId × String)}
    {ids : List TensorId} (idle : b.Idle) (idle' : b'.Idle)
    (built : SameCalls (Network.new b config) (Network.new b' config') n n')
    (compiled : compile batch n = .ok ⟨⟩ m) (compiled' : compile batch n' = .ok ⟨⟩ m')
    (used : (m.named names).Used k) (used' : (m'.named names).Used k')
    (accepted : ∀ id ∈ ids, ∃ name, k.label id = some name ∧ Snapshot.isName name)
    (distinct : (ids.map k.label).Nodup) :
    ∃ k'', saveSnapshot ids k = .ok (Snapshot.stream (ids.map k.record)) k ∧
      loadSnapshot (.ok (Snapshot.stream (ids.map k.record))) ids k' = .ok ⟨⟩ k'' ∧
      ∀ before id after, ids = before ++ id :: after →
        ¬Snapshot.Masked (before.map k.record) (k.record id) (after.map k.record) →
        ∃ values, readTensor id 0 k = .ok values k ∧ readTensor id 0 k'' = .ok values k'' := by
  obtain ⟨hstage, hpos, _, _, ha⟩ := built.left.named_arranged idle compiled names
  obtain ⟨hstage', hpos', _, _, ha'⟩ := built.right.named_arranged idle' compiled' names
  have hk := used.shares hstage
  have hk' := used'.shares hstage'
  have hunstored : (m'.named names).unstored = (m.named names).unstored :=
    named_unstored ((built.twin (.new ..)).compile_unstored built.left.outline built.right.outline
      ⟨idle.dispatches, idle.sound⟩ ⟨idle'.dispatches, idle'.sound⟩ compiled compiled') names
  -- each tensor of the list, in the network that is saved and in the one that is loaded into
  have htensor : ∀ id ∈ ids, ∃ t t', (m.named names).tensors[id.index]? = some t ∧
      (m'.named names).tensors[id.index]? = some t' ∧ t'.name = some (k.record id).1 ∧
      t'.shape.elements = (k.record id).2.length := by
    intro id hid
    obtain ⟨name, hname, -⟩ := accepted id hid
    obtain ⟨t, ht, htname⟩ := Option.bind_eq_some_iff.mp hname
    rw [hk.tensors] at ht
    obtain ⟨t', ht', hsame, hshape⟩ := tensor_of_unstored hunstored ht
    refine ⟨t, t', ht, ht', ?_, ?_⟩
    · rw [hsame, htname, record_fst hname]
    · rw [hshape, ha.length_record hpos hk ht]
  have hfinds : ∀ id ∈ ids, ∃ values, values.length = (k.record id).2.length ∧
      Snapshot.find (Snapshot.stream (ids.map k.record)) (k.record id).1 (k.record id).2.length =
        .ok values := by
    intro id hid
    obtain ⟨before, after, rfl⟩ := List.append_of_mem hid
    rw [List.map_append, List.map_cons]
    exact Snapshot.find_stream_succeeds _ _ _
  choose! found hlength hfound using hfinds
  obtain ⟨k'', hload, hk'', hrestored, -⟩ := ha'.forM_restoreTensor_ok hpos' hk' found
    (distinct.of_map _) fun id hid => by
      obtain ⟨-, t', -, ht', hname, helements⟩ := htensor id hid
      exact ⟨t', _, ht', hname, helements ▸ hfound id hid, helements ▸ hlength id hid⟩
  refine ⟨k'', ha.saveSnapshot_ok hpos hk accepted, ?_, fun before id after heq hclear => ?_⟩
  · simp only [loadSnapshot, Call.bind_ok_iff, requireCompiled_ok_iff, Call.ofExcept_ok_iff]
    exact ⟨⟨⟩, k', ⟨hk'.stage, rfl⟩, _, k', ⟨rfl, rfl⟩, hload⟩
  have hid : id ∈ ids := by simp [heq]
  obtain ⟨t, t', ht, ht', -⟩ := htensor id hid
  refine ⟨_, ha.readTensor_ok hk ht (hpos _ t ht) fun _ => rfl, ?_⟩
  rw [ha'.readTensor_ok hk'' ht' (hpos' _ t' ht') fun _ => rfl, hrestored id hid]
  have hfind := find_record accepted distinct heq hclear
  rw [hfound id hid, Except.ok.injEq] at hfind
  rw [hfind, record, values, values, hk.handle]

def filledWeights (first : Array Binary32) : Network Binary32 :=
  (HostWrite.tensor ⟨1⟩ 0 #[1]).perform ((HostWrite.tensor ⟨0⟩ 0 first).perform compiledWeights)

theorem filledWeights_used (first : Array Binary32) : compiledWeights.Used (filledWeights first) :=
  ((Used.refl _).written _).written _

def otherWeights : Network Binary32 :=
  (Network.new { Backend.host with device := { alignment := 16 } } { seed := 7 }).draft weightCalls

def compiledOtherWeights : Network Binary32 := Call.after (compile 1) otherWeights

set_option maxRecDepth 100000 in
/-- The first payload holds a line with the name of the second parameter, but what follows it is not
as long as a payload of that parameter. -/
theorem filledWeights_restores : ∃ k'' values,
    saveSnapshot [⟨0⟩, ⟨1⟩] (filledWeights #[⟨0x02010a62⟩, ⟨0x00ff0403⟩]) =
      .ok [97, 10, 98, 10, 1, 2, 3, 4, 255, 0, 10, 98, 10, 0, 0, 128, 63, 10]
        (filledWeights #[⟨0x02010a62⟩, ⟨0x00ff0403⟩]) ∧
    readTensor ⟨1⟩ 0 (filledWeights #[⟨0x02010a62⟩, ⟨0x00ff0403⟩]) =
      .ok values (filledWeights #[⟨0x02010a62⟩, ⟨0x00ff0403⟩]) ∧
    readTensor ⟨1⟩ 0 k'' = .ok values k'' := by
  have idle : Backend.Idle { Backend.host (α := Binary32) with device := { alignment := 16 } } :=
    ⟨rfl, fun i compiled hi => by simp [Backend.host] at hi⟩
  have hbuilt : SameCalls (Network.new Backend.host {})
      (Network.new { Backend.host with device := { alignment := 16 } } { seed := 7 })
      namedWeights otherWeights := SameCalls.start.draft weightCalls
  have hother : compile 1 otherWeights = .ok ⟨⟩ compiledOtherWeights :=
    Call.ok_of_isOk (by decide +kernel)
  have hused : (compiledWeights.named []).Used (filledWeights #[⟨0x02010a62⟩, ⟨0x00ff0403⟩]) := by
    rw [named_nil]
    exact filledWeights_used _
  have haccepted : ∀ id ∈ [(⟨0⟩ : TensorId), ⟨1⟩], ∃ name,
      (filledWeights #[⟨0x02010a62⟩, ⟨0x00ff0403⟩]).label id = some name ∧
        Snapshot.isName name := by
    intro id hid
    obtain rfl | rfl : id = ⟨0⟩ ∨ id = ⟨1⟩ := by simpa using hid
    · exact ⟨"a", by decide +kernel, by decide +kernel⟩
    · exact ⟨"b", by decide +kernel, by decide +kernel⟩
  obtain ⟨k'', hsave, hload, hread⟩ := SameCalls.snapshot_restores Backend.host_idle idle hbuilt
    namedWeights_compile hother hused (.refl (compiledOtherWeights.named [])) haccepted
    (by decide +kernel)
  obtain ⟨values, hvalues⟩ := hread [⟨0⟩] ⟨1⟩ [] rfl (by decide +kernel)
  have hstream : Snapshot.stream ([⟨0⟩, ⟨1⟩].map
      (filledWeights #[⟨0x02010a62⟩, ⟨0x00ff0403⟩]).record) =
      [97, 10, 98, 10, 1, 2, 3, 4, 255, 0, 10, 98, 10, 0, 0, 128, 63, 10] := by decide +kernel
  exact ⟨k'', values, hstream ▸ hsave, hvalues⟩

set_option maxRecDepth 100000 in
/-- Where the line has a payload as long as that of the second parameter, and a line feed after it,
the second parameter is given that payload. -/
theorem snapshot_misreads : ∃ stream s k s' s'',
    saveSnapshot [⟨0⟩, ⟨1⟩] (filledWeights #[⟨0x02010a62⟩, ⟨0x000a0403⟩]) = .ok stream s ∧
    loadSnapshot (.ok stream) [⟨0⟩, ⟨1⟩] compiledWeights = .ok ⟨⟩ k ∧
    readTensor ⟨1⟩ 0 (filledWeights #[⟨0x02010a62⟩, ⟨0x000a0403⟩]) = .ok #[1] s' ∧
    readTensor ⟨1⟩ 0 k = .ok #[⟨0x04030201⟩] s'' := by
  have hsave := Call.ok_of_answer? (x := saveSnapshot [⟨0⟩, ⟨1⟩])
    (s := filledWeights #[⟨0x02010a62⟩, ⟨0x000a0403⟩])
    (b := [97, 10, 98, 10, 1, 2, 3, 4, 10, 0, 10, 98, 10, 0, 0, 128, 63, 10]) (by decide +kernel)
  exact ⟨_, _, _, _, _, hsave, Call.ok_of_isOk (by decide +kernel),
    Call.ok_of_answer? (by decide +kernel), Call.ok_of_answer? (by decide +kernel)⟩

end Backprop.Network
