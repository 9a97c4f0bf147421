import Mathlib
import Backprop.Proofs.Snapshot

/-! The search for a record, told by the places of a stream. A place counts where a line starts that
is the name, and where the payload after it ends with the stream or before a line feed; the reader
takes the first such place. -/

namespace Backprop

namespace Snapshot

open Binary32

variable {name : String} {elements place : Nat} {atLine cut : Bool} {stream text : Bytes}

/-! ### Places that count -/

/-- A line that is the name starts at a place of a stream. -/
structure NamedAt (stream : Bytes) (name : String) (place : Nat) : Prop where
  line : place = 0 ∨ stream[place - 1]? = some lineFeed
  heading : heading name <+: stream.drop place

def payloadStart (name : String) (place : Nat) : Nat := place + (heading name).length

/-- The line of a name and a payload of some words, which the end of the stream or a line feed
follows. -/
structure ReadableAt (stream : Bytes) (name : String) (elements place : Nat) : Prop where
  named : NamedAt stream name place
  fits : payloadStart name place + 4 * elements ≤ stream.length
  ended : payloadStart name place + 4 * elements = stream.length ∨
    stream[payloadStart name place + 4 * elements]? = some lineFeed

def payload (stream : Bytes) (name : String) (elements place : Nat) : Bytes :=
  (stream.drop (payloadStart name place)).take (4 * elements)

instance : Decidable (NamedAt stream name place) :=
  decidable_of_iff ((place = 0 ∨ stream[place - 1]? = some lineFeed) ∧
      (heading name).isPrefixOf (stream.drop place)) <| by
    rw [List.isPrefixOf_iff_prefix]
    exact ⟨fun h => ⟨h.1, h.2⟩, fun h => ⟨h.line, h.heading⟩⟩

instance : Decidable (ReadableAt stream name elements place) :=
  decidable_of_iff (NamedAt stream name place ∧
      payloadStart name place + 4 * elements ≤ stream.length ∧
      (payloadStart name place + 4 * elements = stream.length ∨
        stream[payloadStart name place + 4 * elements]? = some lineFeed))
    ⟨fun ⟨hnamed, hfits, hended⟩ => ⟨hnamed, hfits, hended⟩,
      fun ⟨hnamed, hfits, hended⟩ => ⟨hnamed, hfits, hended⟩⟩

theorem heading_ne_nil (name : String) : heading name ≠ [] := by simp [heading]

theorem lineAt_true_iff :
    LineAt true stream place ↔ place = 0 ∨ stream[place - 1]? = some lineFeed := by
  cases place <;> simp [LineAt]

theorem namedAt_iff :
    NamedAt stream name place ↔ LineAt true stream place ∧ heading name <+: stream.drop place := by
  rw [lineAt_true_iff]
  exact ⟨fun h => ⟨h.line, h.heading⟩, fun h => ⟨h.1, h.2⟩⟩

theorem NamedAt.payloadStart_le (h : NamedAt stream name place) :
    payloadStart name place ≤ stream.length := by
  have hlength := h.heading.length_le
  have hpos := List.length_pos_of_ne_nil (heading_ne_nil name)
  rw [List.length_drop] at hlength
  rw [payloadStart]
  omega

theorem candidate_eq (body : Bytes) (elements : Nat) : candidate body elements =
    if body.length < 4 * elements then .cutShort
    else if 4 * elements = body.length ∨ body[4 * elements]? = some lineFeed then
      .found (listOfBytes (body.take (4 * elements)))
    else .otherText := by
  rw [candidate, List.length_take]
  by_cases hshort : body.length < 4 * elements
  · rw [if_pos hshort, if_pos (by omega)]
  rw [if_neg hshort, if_neg (by omega)]
  cases hdrop : body.drop (4 * elements) with
  | nil =>
    have hlength := List.drop_eq_nil_iff.mp hdrop
    rw [if_pos (.inl (by omega))]
  | cons b rest =>
    have hb : body[4 * elements]? = some b := by
      rw [← List.head?_drop, hdrop, List.head?_cons]
    have hne : 4 * elements ≠ body.length := (List.getElem?_eq_some_iff.mp hb).1.ne
    simp only [hb, hne, false_or, Option.some.injEq]

theorem candidate_cutShort_iff {body : Bytes} :
    candidate body elements = .cutShort ↔ body.length < 4 * elements := by
  rw [candidate_eq]
  split_ifs with hshort <;> simp [hshort]

theorem candidate_found_iff {body : Bytes} {values : List Binary32} :
    candidate body elements = .found values ↔
      values = listOfBytes (body.take (4 * elements)) ∧ 4 * elements ≤ body.length ∧
        (4 * elements = body.length ∨ body[4 * elements]? = some lineFeed) := by
  rw [candidate_eq]
  split_ifs with hshort hended
  · simp [hshort]
  · exact ⟨fun h => ⟨(Candidate.found.inj h).symm, Nat.le_of_not_lt hshort, hended⟩,
      fun h => h.1 ▸ rfl⟩
  · simp [hended]

theorem counts_iff :
    Counts name elements true stream place ↔ ReadableAt stream name elements place := by
  have hbody : (stream.drop place).drop (heading name).length =
      stream.drop (payloadStart name place) := by
    rw [List.drop_drop, payloadStart]
  constructor
  · rintro ⟨hline, hheading, values, hvalues⟩
    have hnamed : NamedAt stream name place := namedAt_iff.mpr ⟨hline, hheading⟩
    have hstart := hnamed.payloadStart_le
    rw [hbody, candidate_found_iff, List.length_drop, List.getElem?_drop] at hvalues
    obtain ⟨-, hfits, hended⟩ := hvalues
    exact ⟨hnamed, by omega, hended.imp_left fun h => by omega⟩
  · rintro ⟨hnamed, hfits, hended⟩
    obtain ⟨hline, hheading⟩ := namedAt_iff.mp hnamed
    refine ⟨hline, hheading, listOfBytes (payload stream name elements place), ?_⟩
    rw [hbody, candidate_found_iff, List.length_drop, List.getElem?_drop]
    exact ⟨rfl, by omega, hended.imp_left fun h => by omega⟩

theorem cutAt_iff :
    CutAt name elements true stream place ↔
      NamedAt stream name place ∧ stream.length < payloadStart name place + 4 * elements := by
  have hbody : (stream.drop place).drop (heading name).length =
      stream.drop (payloadStart name place) := by
    rw [List.drop_drop, payloadStart]
  constructor
  · rintro ⟨hline, hheading, hshort⟩
    have hnamed : NamedAt stream name place := namedAt_iff.mpr ⟨hline, hheading⟩
    have hstart := hnamed.payloadStart_le
    rw [hbody, candidate_cutShort_iff, List.length_drop] at hshort
    exact ⟨hnamed, by omega⟩
  · rintro ⟨hnamed, hshort⟩
    have hstart := hnamed.payloadStart_le
    obtain ⟨hline, hheading⟩ := namedAt_iff.mp hnamed
    refine ⟨hline, hheading, ?_⟩
    rw [hbody, candidate_cutShort_iff, List.length_drop]
    omega

/-! ### What the reader answers -/

theorem not_cutAt_nil : ¬CutAt name elements atLine [] place := by
  rintro ⟨-, hheading, -⟩
  rw [List.drop_nil, List.prefix_nil] at hheading
  exact heading_ne_nil name hheading

/-- By induction on a text: where no line counts, the answer tells whether the text was too short
for the payload of one, as long as the end of each such payload is a size. -/
theorem findFrom_error (start : Nat) (cut : Bool)
    (h : ∀ place, ¬Counts name elements atLine text place)
    (fits : ∀ place, CutAt name elements atLine text place →
      start + place + (heading name).length + 4 * elements < UInt64.size) :
    ∃ cut', findFrom name elements start atLine cut text =
        .error (if cut' then .shortRecord name elements else .noRecord name) ∧
      (cut' = true ↔ cut = true ∨ ∃ place, CutAt name elements atLine text place) := by
  induction text generalizing start atLine cut with
  | nil => exact ⟨cut, rfl, (or_iff_left fun ⟨place, hcut⟩ => not_cutAt_nil hcut).symm⟩
  | cons b rest ih =>
    have hrest : ∀ place, ¬Counts name elements (b == lineFeed) rest place :=
      fun place hcounts => h (1 + place) ((counts_append [b]).mpr hcounts)
    have hfits : ∀ place, CutAt name elements (b == lineFeed) rest place →
        start + 1 + place + (heading name).length + 4 * elements < UInt64.size := by
      intro place hcut
      rw [Nat.add_assoc start, Nat.add_comm 1]
      exact fits (place + 1) (cutAt_cons.mpr hcut)
    by_cases hfirst : CutAt name elements atLine (b :: rest) 0
    · have hsize : requireSize (start + (heading name).length + 4 * elements) = .ok () :=
        requireSize_ok_iff.mpr (.inr (fits 0 hfirst))
      obtain ⟨cut', hfound, hcut'⟩ := ih (start + 1) true hrest hfits
      refine ⟨cut', ?_, iff_of_true (hcut'.mpr (.inl rfl)) (.inr ⟨0, hfirst⟩)⟩
      rw [findFrom_cut start cut hfirst, hsize]
      exact hfound
    · obtain ⟨cut', hfound, hcut'⟩ := ih (start + 1) cut hrest hfits
      refine ⟨cut', (findFrom_skip start cut (h 0) hfirst).trans hfound,
        hcut'.trans (or_congr_right ⟨?_, ?_⟩)⟩
      · rintro ⟨place, hcut⟩
        exact ⟨place + 1, cutAt_cons.mpr hcut⟩
      · rintro ⟨place, hcut⟩
        cases place with
        | zero => exact (hfirst hcut).elim
        | succ place => exact ⟨place, cutAt_cons.mp hcut⟩

/-- By induction on a text: a payload whose end is no size stops the reader. -/
theorem findFrom_overflow (start : Nat) (cut : Bool)
    (h : ∀ place, ¬Counts name elements atLine text place)
    (short : CutAt name elements atLine text place)
    (large : UInt64.size ≤ start + place + (heading name).length + 4 * elements) :
    findFrom name elements start atLine cut text = .error (.fault .overflow) := by
  induction text generalizing start atLine cut place with
  | nil => exact (not_cutAt_nil short).elim
  | cons b rest ih =>
    have hrest : ∀ place, ¬Counts name elements (b == lineFeed) rest place :=
      fun place hcounts => h (1 + place) ((counts_append [b]).mpr hcounts)
    have hlater : ∀ cut, place ≠ 0 → findFrom name elements (start + 1) (b == lineFeed) cut rest =
        .error (.fault .overflow) := by
      intro cut hne
      obtain ⟨later, rfl⟩ := Nat.exists_eq_succ_of_ne_zero hne
      exact ih (start + 1) cut hrest (cutAt_cons.mp short) (by omega)
    by_cases hfirst : CutAt name elements atLine (b :: rest) 0
    · rw [findFrom_cut start cut hfirst]
      cases hsize : requireSize (start + (heading name).length + 4 * elements) with
      | error e =>
        obtain ⟨rfl, -⟩ := requireSize_error_iff.mp hsize
        rfl
      | ok u =>
        refine hlater true fun hzero => ?_
        have hsmall := requireSize_ok_iff.mp hsize
        have hpos : 0 < UInt64.size := by decide
        omega
    · rw [findFrom_skip start cut (h 0) hfirst]
      exact hlater cut fun hzero => hfirst (hzero ▸ short)

/-- The bytes of the payload, or the place where one would end that the stream is too short for, are
more than a size can count. -/
def Overflows (stream : Bytes) (name : String) (elements : Nat) : Prop :=
  (stream.length < 4 * elements ∧ UInt64.size ≤ 4 * elements) ∨
    ∃ place, NamedAt stream name place ∧
      stream.length < payloadStart name place + 4 * elements ∧
      UInt64.size ≤ payloadStart name place + 4 * elements

theorem find_of_first (h : ReadableAt stream name elements place)
    (first : ∀ earlier < place, ¬ReadableAt stream name elements earlier) :
    find stream name elements = .ok (listOfBytes (payload stream name elements place)) := by
  have hlt : place ≤ stream.length :=
    (Nat.le_add_right ..).trans h.named.payloadStart_le
  have hsplit : stream.take place ++ stream.drop place = stream := List.take_append_drop ..
  have hlength : (stream.take place).length = place := by
    rw [List.length_take]
    omega
  have hskip : ∀ earlier < (stream.take place).length,
      ¬Counts name elements true (stream.take place ++ stream.drop place) earlier := by
    rw [hlength, hsplit]
    exact fun earlier hearlier hcounts => first earlier hearlier (counts_iff.mp hcounts)
  have hwhole : ∀ earlier < (stream.take place).length,
      ¬CutAt name elements true (stream.take place ++ stream.drop place) earlier := by
    rw [hlength, hsplit]
    exact fun earlier hearlier => (counts_iff.mpr h).not_cutAt hearlier.le
  have hfind := findFrom_append 0 false hskip hwhole
  have hhere : Counts name elements (endsLine true (stream.take place)) (stream.drop place) 0 := by
    rw [← counts_append, hsplit, hlength]
    exact counts_iff.mpr h
  obtain ⟨values, hvalues, hok⟩ := findFrom_of_counts (0 + (stream.take place).length) false hhere
  rw [List.drop_drop] at hvalues
  rw [hsplit] at hfind
  rw [find_of_counts (counts_iff.mpr h), hfind, hok, (candidate_found_iff.mp hvalues).1]
  rfl

theorem find_of_none (none : ∀ place, ¬ReadableAt stream name elements place)
    (fits : ¬Overflows stream name elements) :
    ∃ cut : Bool, find stream name elements =
        .error (if cut then .shortRecord name elements else .noRecord name) ∧
      (cut ↔ ∃ place, NamedAt stream name place ∧
        stream.length < payloadStart name place + 4 * elements) := by
  obtain ⟨hpayload, hends⟩ := not_or.mp fits
  have hsize : requireSize (4 * elements) stream.length = .ok () :=
    requireSize_ok_iff.mpr (by omega)
  have hfits : ∀ place, CutAt name elements true stream place →
      0 + place + (heading name).length + 4 * elements < UInt64.size := by
    intro place hcut
    obtain ⟨hnamed, hshort⟩ := cutAt_iff.mp hcut
    rw [Nat.zero_add]
    exact Nat.lt_of_not_le fun hlarge => hends ⟨place, hnamed, hshort, hlarge⟩
  obtain ⟨cut, hfound, hcut⟩ :=
    findFrom_error 0 false (fun place hcounts => none place (counts_iff.mp hcounts)) hfits
  simp only [Bool.false_eq_true, false_or, cutAt_iff] at hcut
  rw [find, hsize]
  exact ⟨cut, hfound, hcut⟩

theorem find_of_overflows (none : ∀ place, ¬ReadableAt stream name elements place)
    (h : Overflows stream name elements) :
    find stream name elements = .error (.fault .overflow) := by
  rw [find]
  cases hsize : requireSize (4 * elements) stream.length with
  | error e =>
    obtain ⟨rfl, -⟩ := requireSize_error_iff.mp hsize
    rfl
  | ok u =>
    have hsmall := requireSize_ok_iff.mp hsize
    obtain hpayload | ⟨place, hnamed, hshort, hlarge⟩ := h
    · omega
    · refine findFrom_overflow 0 false (fun place hcounts => none place (counts_iff.mp hcounts))
        (cutAt_iff.mpr ⟨hnamed, hshort⟩) ?_
      rwa [Nat.zero_add]

/-- The reader fails where no place counts. -/
theorem find_error_iff :
    (∃ e, find stream name elements = .error e) ↔
      ∀ place, ¬ReadableAt stream name elements place := by
  constructor
  · rintro ⟨e, he⟩ place h
    have hcounts := counts_iff.mpr h
    obtain ⟨values, -, hok⟩ := findFrom_succeeds 0 false hcounts
    rw [find_of_counts hcounts, hok] at he
    cases he
  · intro none
    by_cases h : Overflows stream name elements
    · exact ⟨_, find_of_overflows none h⟩
    · obtain ⟨cut, hfound, -⟩ := find_of_none none h
      exact ⟨_, hfound⟩

/-! ### The search with every access checked -/

/-- The bytes of a stream from `first` on, up to `last`; a range that leaves it is a fault. -/
def slice (stream : Bytes) (first last : Nat) : Except Error Bytes :=
  if first ≤ last ∧ last ≤ stream.length then .ok ((stream.drop first).take (last - first))
  else .error (.fault .outOfBounds)

def isLineFeed (stream : Bytes) (place : Nat) : Except Error Bool :=
  match stream[place]? with
  | some b => .ok (b == lineFeed)
  | none => .error (.fault .outOfBounds)

def startsLine (stream : Bytes) (place : Nat) : Except Error Bool :=
  if place = 0 then .ok true else isLineFeed stream (place - 1)

def stopsAt (stream : Bytes) (place : Nat) : Except Error Bool :=
  if place = stream.length then .ok true else isLineFeed stream place

/-- What a place of a stream tells. -/
def look (stream : Bytes) (name : String) (elements place : Nat) : Except Error Candidate := do
  let first := payloadStart name place
  let last := first + 4 * elements
  let line ← slice stream place first
  let starts ← startsLine stream place
  if line = heading name ∧ starts then
    requireSize last stream.length
    if stream.length < last then return .cutShort
    if ← stopsAt stream last then return .found (listOfBytes (← slice stream first last))
  return .otherText

theorem place_lt (h : payloadStart name place ≤ stream.length) : place < stream.length := by
  have hpos := List.length_pos_of_ne_nil (heading_ne_nil name)
  rw [payloadStart] at h
  omega

/-- The search from a place on, as long as the line of the name still fits. -/
def searchFrom (stream : Bytes) (name : String) (elements place : Nat) (cut : Bool) :
    Except Error (List Binary32) :=
  if payloadStart name place ≤ stream.length then
    match look stream name elements place with
    | .error e => .error e
    | .ok (.found values) => .ok values
    | .ok .cutShort => searchFrom stream name elements (place + 1) true
    | .ok .otherText => searchFrom stream name elements (place + 1) cut
  else .error (if cut then .shortRecord name elements else .noRecord name)
termination_by stream.length - place
decreasing_by
  all_goals
    have : place < stream.length := place_lt ‹payloadStart name place ≤ stream.length›
    omega

theorem slice_ok {first last : Nat} (h : first ≤ last) (h' : last ≤ stream.length) :
    slice stream first last = .ok ((stream.drop first).take (last - first)) :=
  if_pos ⟨h, h'⟩

theorem isLineFeed_ok (h : place < stream.length) :
    isLineFeed stream place = .ok (decide (stream[place]? = some lineFeed)) := by
  rw [isLineFeed, List.getElem?_eq_getElem h]
  simp only [Option.some.injEq, Except.ok.injEq]
  rfl

theorem startsLine_ok (h : place < stream.length) :
    startsLine stream place = .ok (decide (LineAt true stream place)) := by
  cases place with
  | zero => rfl
  | succ place => exact isLineFeed_ok (Nat.lt_of_succ_lt h)

theorem stopsAt_ok (h : place ≤ stream.length) : stopsAt stream place =
    .ok (decide (place = stream.length ∨ stream[place]? = some lineFeed)) := by
  by_cases hend : place = stream.length
  · rw [stopsAt, if_pos hend, decide_eq_true (.inl hend)]
  · rw [stopsAt, if_neg hend, isLineFeed_ok (lt_of_le_of_ne h hend)]
    simp only [hend, false_or]

theorem look_eq (h : payloadStart name place ≤ stream.length) :
    look stream name elements place = if NamedAt stream name place then
      requireSize (payloadStart name place + 4 * elements) stream.length >>= fun _ =>
        .ok (candidate (stream.drop (payloadStart name place)) elements)
      else .ok .otherText := by
  have hline : slice stream place (payloadStart name place) =
      .ok ((stream.drop place).take (heading name).length) := by
    have hle : place ≤ payloadStart name place := Nat.le_add_right ..
    rw [slice_ok hle h, payloadStart, Nat.add_sub_cancel_left]
  have hnamed : (stream.drop place).take (heading name).length = heading name ∧
      decide (LineAt true stream place) = true ↔ NamedAt stream name place := by
    rw [namedAt_iff, decide_eq_true_iff, and_comm, List.prefix_iff_eq_take, eq_comm]
  rw [look, hline, startsLine_ok (place_lt h)]
  simp only [bind, Except.bind, hnamed]
  by_cases hn : NamedAt stream name place
  · rw [if_pos hn, if_pos hn]
    cases requireSize (payloadStart name place + 4 * elements) stream.length with
    | error e => rfl
    | ok u =>
      by_cases hshort : stream.length < payloadStart name place + 4 * elements
      · simp only [if_pos hshort, candidate_cutShort_iff.mpr
          (show (stream.drop (payloadStart name place)).length < 4 * elements by
            rw [List.length_drop]; omega)]
        rfl
      have hlong := Nat.le_of_not_lt hshort
      have hend : 4 * elements = (stream.drop (payloadStart name place)).length ↔
          payloadStart name place + 4 * elements = stream.length := by
        rw [List.length_drop]
        omega
      have hcandidate : candidate (stream.drop (payloadStart name place)) elements =
          if payloadStart name place + 4 * elements = stream.length ∨
              stream[payloadStart name place + 4 * elements]? = some lineFeed then
            .found (listOfBytes ((stream.drop (payloadStart name place)).take (4 * elements)))
          else .otherText := by
        rw [candidate_eq, if_neg (by rw [List.length_drop]; omega)]
        simp only [hend, List.getElem?_drop]
      simp only [if_neg hshort, stopsAt_ok hlong, slice_ok (Nat.le_add_right ..) hlong,
        Nat.add_sub_cancel_left, decide_eq_true_eq, hcandidate]
      split_ifs <;> rfl
  · rw [if_neg hn, if_neg hn]
    rfl

theorem findFrom_drop (cut : Bool) (h : payloadStart name place ≤ stream.length) :
    findFrom name elements place (decide (LineAt true stream place)) cut (stream.drop place) =
      match look stream name elements place with
      | .error e => .error e
      | .ok (.found values) => .ok values
      | .ok .cutShort => findFrom name elements (place + 1)
          (decide (LineAt true stream (place + 1))) true (stream.drop (place + 1))
      | .ok .otherText => findFrom name elements (place + 1)
          (decide (LineAt true stream (place + 1))) cut (stream.drop (place + 1)) := by
  have hlt := place_lt h
  have hnext : (stream[place] == lineFeed) = decide (LineAt true stream (place + 1)) := by
    simp [LineAt, List.getElem?_eq_getElem hlt, beq_eq_decide]
  have hnamed : (decide (LineAt true stream place) &&
      (heading name).isPrefixOf (stream.drop place)) = decide (NamedAt stream name place) := by
    rw [Bool.eq_iff_iff, Bool.and_eq_true, decide_eq_true_iff, List.isPrefixOf_iff_prefix,
      decide_eq_true_iff, namedAt_iff]
  rw [look_eq h]
  rw [List.drop_eq_getElem_cons hlt] at hnamed ⊢
  rw [findFrom, hnamed, hnext, ← List.drop_eq_getElem_cons hlt, List.drop_drop]
  by_cases hn : NamedAt stream name place
  · simp only [hn, decide_true, if_true]
    -- only a payload that is cut short may have an end that is no size
    by_cases hshort : stream.length < payloadStart name place + 4 * elements
    · have hcut : candidate (stream.drop (payloadStart name place)) elements = .cutShort := by
        rw [candidate_cutShort_iff, List.length_drop]
        omega
      rw [requireSize_of_beyond hshort, hcut]
      rw [payloadStart] at hcut ⊢
      rw [hcut]
      cases requireSize (place + (heading name).length + 4 * elements) <;> rfl
    · have hsize : requireSize (payloadStart name place + 4 * elements) stream.length = .ok () :=
        requireSize_ok_iff.mpr (.inl (Nat.le_of_not_lt hshort))
      have hwhole : candidate (stream.drop (payloadStart name place)) elements ≠ .cutShort := by
        rw [Ne, candidate_cutShort_iff, List.length_drop]
        omega
      rw [hsize]
      rw [payloadStart] at hwhole ⊢
      cases hc : candidate (stream.drop (place + (heading name).length)) elements with
      | cutShort => exact (hwhole hc).elim
      | found | otherText => rfl
  · simp only [hn, decide_false, if_false, Bool.false_eq_true]

theorem findFrom_of_short (start : Nat) (cut : Bool) (h : text.length < (heading name).length) :
    findFrom name elements start atLine cut text =
      .error (if cut then .shortRecord name elements else .noRecord name) := by
  have hheading : ∀ place, ¬heading name <+: text.drop place := by
    intro place hheading
    have hlength := hheading.length_le
    rw [List.length_drop] at hlength
    omega
  have hnone : ∀ place, ¬Counts name elements atLine text place :=
    fun place hcounts => hheading place hcounts.heading
  obtain ⟨cut', hfound, hcut⟩ := findFrom_error start cut hnone
    (fun place hcut => (hheading place hcut.heading).elim)
  have hsame : cut' = cut :=
    Bool.eq_iff_iff.mpr (hcut.trans (or_iff_left fun ⟨place, hat⟩ => hheading place hat.heading))
  rw [hfound, hsame]

/-- Read by places, with every access checked, the search answers the same: by induction on what is
left of the stream. -/
theorem searchFrom_eq (place : Nat) (cut : Bool) :
    searchFrom stream name elements place cut =
      findFrom name elements place (decide (LineAt true stream place)) cut (stream.drop place) := by
  fun_induction searchFrom stream name elements place cut with
  | case1 place cut h e hlook | case2 place cut h values hlook => rw [findFrom_drop cut h, hlook]
  | case3 place cut h hlook ih | case4 place cut h hlook ih => rw [findFrom_drop cut h, hlook, ih]
  | case5 place cut h =>
    refine (findFrom_of_short place cut ?_).symm
    rw [List.length_drop]
    rw [payloadStart] at h
    have hpos := List.length_pos_of_ne_nil (heading_ne_nil name)
    omega

/-- The search of a stream by its places. -/
def search (stream : Bytes) (name : String) (elements : Nat) : Except Error (List Binary32) := do
  requireSize (4 * elements) stream.length
  searchFrom stream name elements 0 false

theorem search_eq : search stream name elements = find stream name elements :=
  congrArg (requireSize (4 * elements) stream.length >>= ·)
    (funext fun _ => searchFrom_eq 0 false)

/-- The reader answers the words of the first line of the name that has a payload of the wanted
length and then the end of the stream or a line feed. Where there is none it says whether the
stream ends within the payload of such a line, unless that payload is too long to be counted. It
never leaves the stream. -/
theorem find_searches (stream : Bytes) (name : String) (elements : Nat) :
    (∀ place, ReadableAt stream name elements place →
      (∀ earlier < place, ¬ReadableAt stream name elements earlier) →
      ∃ values, find stream name elements = .ok values ∧ values.length = elements ∧
        bytesOfList values = payload stream name elements place) ∧
    ((∀ place, ¬ReadableAt stream name elements place) → ¬Overflows stream name elements →
      ∃ e, find stream name elements = .error e ∧
        ((∃ place, NamedAt stream name place ∧
            stream.length < payloadStart name place + 4 * elements) →
          e = .shortRecord name elements ∧ e.kind = .range) ∧
        ((∀ place, NamedAt stream name place →
            payloadStart name place + 4 * elements ≤ stream.length) →
          e = .noRecord name ∧ e.kind = .resourceNotFound)) ∧
    ((∀ place, ¬ReadableAt stream name elements place) → Overflows stream name elements →
      find stream name elements = .error (.fault .overflow)) ∧
    search stream name elements = find stream name elements := by
  refine ⟨fun place h first => ?_, fun none fits => ?_, find_of_overflows, search_eq⟩
  · have hlength : (payload stream name elements place).length = 4 * elements := by
      have hfits := h.fits
      rw [payload, List.length_take, List.length_drop]
      omega
    refine ⟨_, find_of_first h first, ?_, bytesOfList_listOfBytes (hlength ▸ Nat.dvd_mul_right 4 _)⟩
    rw [length_listOfBytes, hlength, Nat.mul_div_cancel_left _ (by omega)]
  · obtain ⟨cut, hfound, hcut⟩ := find_of_none none fits
    refine ⟨_, hfound, fun hshort => ?_, fun hlong => ?_⟩
    · rw [if_pos (hcut.mpr hshort)]
      exact ⟨rfl, rfl⟩
    · rw [if_neg fun h => ?_]
      · exact ⟨rfl, rfl⟩
      · obtain ⟨place, hnamed, hshort⟩ := hcut.mp h
        exact absurd (hlong place hnamed) (Nat.not_le.mpr hshort)

/-- The line of a name within the payload of another line of it: the first has no payload of one
word, the second has. -/
theorem nested_searches :
    (¬ReadableAt [97, 10, 97, 10, 1, 2, 3, 4, 10] "a" 1 0 ∧
      ReadableAt [97, 10, 97, 10, 1, 2, 3, 4, 10] "a" 1 2) ∧
    ∃ values, find [97, 10, 97, 10, 1, 2, 3, 4, 10] "a" 1 = .ok values ∧ values.length = 1 ∧
      bytesOfList values = payload [97, 10, 97, 10, 1, 2, 3, 4, 10] "a" 1 2 :=
  ⟨by decide +kernel, (find_searches [97, 10, 97, 10, 1, 2, 3, 4, 10] "a" 1).1 2
    (by decide +kernel) (by decide +kernel)⟩

/-- The line of the name is followed by one byte, and so many words would end past the largest
size although their bytes can be counted. -/
theorem find_overflows : ¬∀ (stream : Bytes) (name : String) (elements : Nat),
    4 * elements < UInt64.size → (∀ place, ¬ReadableAt stream name elements place) →
      (∃ place, NamedAt stream name place ∧
        stream.length < payloadStart name place + 4 * elements) →
      ∃ e, find stream name elements = .error e ∧ e.kind = .range := by
  intro h
  have hnamed : NamedAt [10, 97, 98, 10] "ab" 1 := by decide +kernel
  have hnone : ∀ place, ¬ReadableAt [10, 97, 98, 10] "ab" 4611686018427387903 place := by
    intro place hreadable
    have hfits := hreadable.fits
    simp only [List.length_cons, List.length_nil] at hfits
    omega
  have hstart : payloadStart "ab" 1 = 4 := by decide +kernel
  obtain ⟨e, he, hkind⟩ := h _ _ _ (by decide) hnone ⟨1, hnamed, by rw [hstart]; decide⟩
  have hfault : find [10, 97, 98, 10] "ab" 4611686018427387903 = .error (.fault .overflow) :=
    find_of_overflows hnone (.inr ⟨1, hnamed, by rw [hstart]; decide, by rw [hstart]⟩)
  rw [hfault, Except.error.injEq] at he
  rw [← he] at hkind
  cases hkind

end Snapshot

end Backprop
