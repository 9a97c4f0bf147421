import Mathlib
import Backprop.Proofs.Snapshot.Search

/-! A record that is asked for with another number of words than it has. It is refused, unless the
bytes happen to hold a line feed, or to end, where the other payload would stop, or a payload holds
the line of the name. -/

namespace Backprop.Snapshot

open Binary32

variable {name : String} {elements place : Nat} {r : String × List Binary32}
  {before after records : List (String × List Binary32)}

/-- A place within the payload of a record of a snapshot. -/
def InPayload (records : List (String × List Binary32)) (place : Nat) : Prop :=
  ∃ before r after offset, records = before ++ r :: after ∧ offset < 4 * r.2.length ∧
    place = (stream before).length + (heading r.1).length + offset

/-- Another number of words than those of a payload, at which a line feed stands or the snapshot
ends; `rest` are the bytes after the record. -/
def StopsAt (values : List Binary32) (rest : Bytes) (elements : Nat) : Prop :=
  values[elements]?.map (·.bits.toUInt8) = some lineFeed ∨
    values.length < elements ∧ (rest.length + 1 = 4 * (elements - values.length) ∨
      rest[4 * (elements - values.length) - 1]? = some lineFeed)

instance (values : List Binary32) (rest : Bytes) (elements : Nat) :
    Decidable (StopsAt values rest elements) :=
  inferInstanceAs (Decidable (_ ∨ _))

/-! ### Lines of a snapshot -/

theorem namedAt_append (before : Bytes) {text : Bytes} (h : endsLine true before = true) :
    NamedAt (before ++ text) name (before.length + place) ↔ NamedAt text name place := by
  rw [namedAt_iff, namedAt_iff, List.drop_length_add_append, lineAt_append, h]

theorem namedAt_heading {other : String} {text : Bytes} (hn : isName name) (ho : isName other)
    (hp : place < (heading other).length) (h : NamedAt (heading other ++ text) name place) :
    place = 0 ∧ other = name := by
  obtain rfl | hfeed := h.line
  · have hname := takeWhile_of_heading hn h.heading
    rw [List.drop_zero, takeWhile_of_heading ho (List.prefix_append _ _)] at hname
    exact ⟨rfl, nameBytes_injective hname⟩
  · have hlt : place - 1 < (nameBytes other).length := by
      have hpos := List.length_pos_of_ne_nil (nameBytes_ne_nil ho)
      rw [heading, List.length_append, List.length_singleton] at hp
      omega
    rw [heading, List.append_assoc, List.getElem?_append_left hlt] at hfeed
    exact (lineFeed_notMem_nameBytes ho (List.mem_of_getElem? hfeed)).elim

/-- By induction on the records: the line of a name is that of a record, or it lies in a payload. -/
theorem namedAt_stream (hn : isName name) (names : ∀ r ∈ records, isName r.1)
    (h : NamedAt (stream records) name place) :
    InPayload records place ∨
      ∃ before r after, records = before ++ r :: after ∧ r.1 = name ∧
        place = (stream before).length := by
  induction records generalizing place with
  | nil =>
    have hnil := h.heading
    rw [stream, List.flatMap_nil, List.drop_nil, List.prefix_nil] at hnil
    exact (heading_ne_nil name hnil).elim
  | cons r rest ih =>
    have hr := names r List.mem_cons_self
    have hstream : stream (r :: rest) =
        heading r.1 ++ (bytesOfList r.2 ++ lineFeed :: stream rest) := by
      rw [stream_cons, recordBytes, List.append_assoc, List.append_assoc, List.singleton_append]
    by_cases hheading : place < (heading r.1).length
    · rw [hstream] at h
      obtain ⟨rfl, heq⟩ := namedAt_heading hn hr hheading h
      exact .inr ⟨[], r, rest, rfl, heq, rfl⟩
    obtain ⟨offset, rfl⟩ := Nat.exists_eq_add_of_le (Nat.le_of_not_lt hheading)
    by_cases hpayload : offset < 4 * r.2.length
    · exact .inl ⟨[], r, rest, offset, rfl, hpayload, by simp [stream]⟩
    obtain ⟨past, rfl⟩ := Nat.exists_eq_add_of_le (Nat.le_of_not_lt hpayload)
    cases past with
    | zero =>
      -- no name starts with the line feed that ends a record
      have hline := takeWhile_of_heading hn h.heading
      rw [hstream, List.drop_length_add_append, Nat.add_zero, ← length_bytesOfList, List.drop_left,
        List.takeWhile_cons_of_neg (by simp)] at hline
      exact (nameBytes_ne_nil hn hline.symm).elim
    | succ past =>
      have hlength : (heading r.1).length + (4 * r.2.length + (past + 1)) =
          (recordBytes r).length + past := by
        simp only [recordBytes, List.length_append, length_bytesOfList, List.length_singleton]
        omega
      rw [hlength] at h ⊢
      rw [stream_cons, namedAt_append _ (endsLine_recordBytes true r)] at h
      obtain ⟨before, r', after, offset, rfl, hoffset, rfl⟩ | ⟨before, r', after, rfl, heq, rfl⟩ :=
        ih (fun r' hr' => names r' (List.mem_cons_of_mem _ hr')) h
      · refine .inl ⟨r :: before, r', after, offset, rfl, hoffset, ?_⟩
        rw [stream_cons, List.length_append]
        omega
      · refine .inr ⟨r :: before, r', after, rfl, heq, ?_⟩
        rw [stream_cons, List.length_append]

/-! ### Other lengths -/

theorem namedAt_record (before after : List (String × List Binary32)) (r : String × List Binary32) :
    NamedAt (stream (before ++ r :: after)) r.1 (stream before).length := by
  rw [stream_append, ← Nat.add_zero (stream before).length,
    namedAt_append _ (endsLine_stream before), stream_cons, recordBytes, List.append_assoc]
  exact ⟨.inl rfl, List.prefix_append _ _⟩

/-- The line of a record can be read with another number of words where these happen to stop. -/
theorem readableAt_record (other : elements ≠ r.2.length) :
    ReadableAt (stream (before ++ r :: after)) r.1 elements (stream before).length ↔
      StopsAt r.2 (stream after) elements := by
  have hdrop : (stream (before ++ r :: after)).drop (payloadStart r.1 (stream before).length) =
      bytesOfList r.2 ++ lineFeed :: stream after := by
    rw [stream_append, payloadStart, List.drop_length_add_append, stream_cons, recordBytes,
      List.append_assoc, List.drop_left, List.append_assoc, List.singleton_append]
  have hstart := (namedAt_record before after r).payloadStart_le
  have hlength := congrArg List.length hdrop
  rw [List.length_drop, List.length_append, length_bytesOfList, List.length_cons] at hlength
  have hbyte : (stream (before ++ r :: after))[payloadStart r.1 (stream before).length +
      4 * elements]? = (bytesOfList r.2 ++ lineFeed :: stream after)[4 * elements]? := by
    rw [← List.getElem?_drop, hdrop]
  have hiff : ReadableAt (stream (before ++ r :: after)) r.1 elements (stream before).length ↔
      4 * elements ≤ 4 * r.2.length + ((stream after).length + 1) ∧
        (4 * elements = 4 * r.2.length + ((stream after).length + 1) ∨
          (bytesOfList r.2 ++ lineFeed :: stream after)[4 * elements]? = some lineFeed) := by
    rw [← hbyte]
    constructor
    · rintro ⟨-, hfits, hended⟩
      exact ⟨by omega, hended.imp_left fun h => by omega⟩
    · rintro ⟨hfits, hended⟩
      exact ⟨namedAt_record before after r, by omega, hended.imp_left fun h => by omega⟩
  rw [hiff, StopsAt]
  by_cases hless : elements < r.2.length
  · have hfirst : (bytesOfList r.2 ++ lineFeed :: stream after)[4 * elements]? =
        some r.2[elements].bits.toUInt8 := by
      rw [List.getElem?_append_left (by rw [length_bytesOfList]; omega), getElem?_bytesOfList,
        Nat.mul_div_cancel_left _ (by omega), Nat.mul_mod_right, List.getElem?_eq_getElem hless]
      rfl
    rw [hfirst, List.getElem?_eq_getElem hless, Option.map_some]
    constructor
    · rintro ⟨-, hend | hfeed⟩
      · omega
      · exact .inl hfeed
    · rintro (hfeed | ⟨hmore, -⟩)
      · exact ⟨by omega, .inr hfeed⟩
      · omega
  · have hmore : r.2.length < elements := lt_of_le_of_ne (Nat.le_of_not_lt hless) other.symm
    have hnext : (bytesOfList r.2 ++ lineFeed :: stream after)[4 * elements]? =
        (stream after)[4 * (elements - r.2.length) - 1]? := by
      rw [List.getElem?_append_right (by rw [length_bytesOfList]; omega), length_bytesOfList,
        show 4 * elements - 4 * r.2.length = 4 * (elements - r.2.length) - 1 + 1 by omega,
        List.getElem?_cons_succ]
    rw [hnext, List.getElem?_eq_none hmore.le]
    constructor
    · rintro ⟨-, hend | hfeed⟩
      · exact .inr ⟨hmore, .inl (by omega)⟩
      · exact .inr ⟨hmore, .inr hfeed⟩
    · rintro (hnone | ⟨-, hend | hfeed⟩)
      · cases hnone
      · exact ⟨by omega, .inl (by omega)⟩
      · have hlt := (List.getElem?_eq_some_iff.mp hfeed).1
        exact ⟨by omega, .inr hfeed⟩

theorem find_refuses {bytes : Bytes} (hsize : bytes.length + 4 * elements < UInt64.size)
    (none : ∀ place, ¬ReadableAt bytes name elements place) :
    ∃ e, find bytes name elements = .error e ∧ (e.kind = .range ∨ e.kind = .resourceNotFound) := by
  have hfits : ¬Overflows bytes name elements := by
    rintro (⟨-, hlarge⟩ | ⟨place, hnamed, -, hlarge⟩)
    · omega
    · have hstart := hnamed.payloadStart_le
      omega
  obtain ⟨cut, hfound, -⟩ := find_of_none none hfits
  refine ⟨_, hfound, ?_⟩
  cases cut
  · exact .inr rfl
  · exact .inl rfl

/-- A record of a snapshot with distinct names is refused under another number of words, unless
these stop before a line feed or at the end of the snapshot, or a payload of the snapshot holds the
line of the name and so many words that a line feed or the end follows. -/
theorem other_length_refused (names : ∀ r' ∈ before ++ r :: after, isName r'.1)
    (distinct : ((before ++ r :: after).map (·.1)).Nodup) (other : elements ≠ r.2.length) :
    ∃ bytes, save (before ++ r :: after) = .ok bytes ∧
      (bytes.length + 4 * elements < UInt64.size →
        ((∃ e, find bytes r.1 elements = .error e ∧
            (e.kind = .range ∨ e.kind = .resourceNotFound)) ↔
          ¬StopsAt r.2 (stream after) elements ∧
            ∀ place, InPayload (before ++ r :: after) place →
              ¬ReadableAt bytes r.1 elements place)) := by
  refine ⟨stream (before ++ r :: after), save_eq names, fun hsize => ⟨?_, ?_⟩⟩
  · rintro ⟨e, he, -⟩
    have hnone := find_error_iff.mp ⟨e, he⟩
    exact ⟨fun h => hnone _ ((readableAt_record other).mpr h), fun place _ => hnone place⟩
  · rintro ⟨hstops, hpayload⟩
    refine find_refuses hsize fun place h => ?_
    have hname : isName r.1 := names r (by simp)
    obtain hin | ⟨before', r', after', heq, hr', rfl⟩ := namedAt_stream hname names h.named
    · exact hpayload place hin h
    · have hplace := congrArg (List.map Prod.fst) heq
      simp only [List.map_append, List.map_cons, hr'] at hplace
      have hsame : (before.map Prod.fst).length = (before'.map Prod.fst).length := by
        refine (List.getElem?_inj ?_ distinct).mp ?_
        · simp
        · rw [List.map_append, List.map_cons, List.getElem?_append_right le_rfl, hplace,
            List.getElem?_append_right le_rfl]
          simp
      rw [List.length_map, List.length_map] at hsame
      rw [← List.append_inj_left heq hsame] at h
      exact hstops ((readableAt_record other).mp h)

def pairedWeights : List (String × List Binary32) := [("w", [1]), ("b", [⟨0x40000000⟩])]

theorem pairedWeights_other_length_refused : (2 ≠ 1) ∧ ∃ bytes, save pairedWeights = .ok bytes ∧
    ∃ e, find bytes "w" 2 = .error e ∧ (e.kind = .range ∨ e.kind = .resourceNotFound) := by
  have hnone : ∀ place, ¬ReadableAt (stream pairedWeights) "w" 2 place := by
    intro place h
    have hplace : place < (stream pairedWeights).length := place_lt h.named.payloadStart_le
    have hall : ∀ place < (stream pairedWeights).length,
        ¬ReadableAt (stream pairedWeights) "w" 2 place := by decide +kernel
    exact hall place hplace h
  obtain ⟨bytes, hsave, hfind⟩ := @other_length_refused 2 ("w", [1]) [] [("b", [⟨0x40000000⟩])]
    (by decide +kernel) (by decide +kernel) (by decide)
  have hbytes : bytes = stream pairedWeights :=
    Except.ok.inj (hsave.symm.trans (save_eq (by decide +kernel)))
  subst hbytes
  exact ⟨by decide, _, hsave,
    (hfind (by decide +kernel)).mpr ⟨by decide +kernel, fun place _ => hnone place⟩⟩

/-- Three words in place of one reach to the end of the snapshot: the rest of the record and the
whole record after it are taken for weights. -/
theorem other_length_accepted : ¬∀ (records : List (String × List Binary32)) (r) (elements : Nat),
    (∀ r' ∈ records, isName r'.1) → (records.map (·.1)).Nodup → r ∈ records →
      elements ≠ r.2.length → ∀ bytes, save records = .ok bytes →
        ∃ e, find bytes r.1 elements = .error e := by
  intro h
  obtain ⟨e, he⟩ := h pairedWeights ("w", [1]) 3 (by decide +kernel) (by decide +kernel)
    (by decide +kernel) (by decide) _ (save_eq (by decide +kernel))
  have hfound : find (stream pairedWeights) "w" 3 = .ok [1, ⟨0x000a620a⟩, ⟨0x0a400000⟩] := by
    decide +kernel
  rw [hfound] at he
  cases he

end Backprop.Snapshot
