import Mathlib
import Backprop.Proofs.Call
import Backprop.Snapshot

/-! Snapshots that are read back. Records have no length, so the reader goes by lines: it takes the
first line that holds the name and has a payload after it. That is the line of the record, unless a
payload before it holds such a line too. -/

namespace Backprop

/-! ### Words and bytes -/

namespace Binary32

theorem ofBytes_bits (x : UInt32) :
    ofBytes x.toUInt8 (x >>> 8).toUInt8 (x >>> 16).toUInt8 (x >>> 24).toUInt8 = ⟨x⟩ := by
  rw [ofBytes, Binary32.mk.injEq, ← UInt32.toBitVec_inj]
  simp only [UInt32.toBitVec_or, UInt32.toBitVec_shiftLeft, UInt8.toBitVec_toUInt32,
    UInt32.toBitVec_toUInt8, UInt32.toBitVec_shiftRight]
  ext i hi
  simp [BitVec.getElem_setWidth, BitVec.getLsbD_setWidth]
  rw [← BitVec.getLsbD_eq_getElem]
  -- bit by bit, each of the four bytes holds its own
  grind

theorem bytesOfList_cons (x : Binary32) (xs : List Binary32) :
    bytesOfList (x :: xs) = x.bits.toUInt8 :: (x.bits >>> 8).toUInt8 :: (x.bits >>> 16).toUInt8 ::
      (x.bits >>> 24).toUInt8 :: bytesOfList xs := rfl

theorem wordsFrom_bytesOfList (before xs : List Binary32) :
    wordsFrom before (bytesOfList xs) = before.reverse ++ xs := by
  induction xs generalizing before with
  | nil => simp [bytesOfList, wordsFrom]
  | cons x xs ih =>
    rw [bytesOfList_cons, wordsFrom, ofBytes_bits, ih, List.reverse_cons, List.append_assoc]
    rfl

theorem listOfBytes_bytesOfList (xs : List Binary32) : listOfBytes (bytesOfList xs) = xs :=
  wordsFrom_bytesOfList [] xs

@[simp] theorem length_bytesOfList (xs : List Binary32) :
    (bytesOfList xs).length = 4 * xs.length := by
  induction xs with
  | nil => rfl
  | cons x xs ih =>
    simp only [bytesOfList_cons, List.length_cons, ih]
    omega

theorem length_wordsFrom (before : List Binary32) (bytes : Bytes) :
    (wordsFrom before bytes).length = before.length + bytes.length / 4 := by
  fun_induction wordsFrom before bytes with
  | case1 before a b c d rest ih =>
    simp only [ih, List.length_cons]
    omega
  | case2 bytes before h =>
    have hshort : bytes.length < 4 := by
      by_contra hlong
      obtain ⟨a, b, c, d, rest, rfl⟩ : ∃ a b c d rest, bytes = a :: b :: c :: d :: rest := by
        match bytes, hlong with
        | a :: b :: c :: d :: rest, _ => exact ⟨a, b, c, d, rest, rfl⟩
        | [], hlong | [_], hlong | [_, _], hlong | [_, _, _], hlong => simp at hlong
      exact h a b c d rest rfl
    rw [List.length_reverse]
    omega

theorem length_listOfBytes (bytes : Bytes) : (listOfBytes bytes).length = bytes.length / 4 := by
  rw [listOfBytes, length_wordsFrom, List.length_nil, Nat.zero_add]

theorem toBytes_ofBytes (a b c d : UInt8) : (ofBytes a b c d).toBytes = [a, b, c, d] := by
  have hbyte : ∀ (x : UInt8) (y : UInt32), y.toBitVec.setWidth 8 = x.toBitVec → y.toUInt8 = x := by
    intro x y h
    rw [← UInt8.toBitVec_inj, UInt32.toBitVec_toUInt8, h]
  simp only [toBytes, ofBytes, List.cons.injEq, and_true]
  refine ⟨hbyte _ _ ?_, hbyte _ _ ?_, hbyte _ _ ?_, hbyte _ _ ?_⟩
  all_goals ext i hi
  · simp
  all_goals
    simp [BitVec.getElem_setWidth, BitVec.getLsbD_setWidth]
    grind

theorem bytesOfList_wordsFrom (before : List Binary32) {bytes : Bytes} (h : 4 ∣ bytes.length) :
    bytesOfList (wordsFrom before bytes) = bytesOfList before.reverse ++ bytes := by
  fun_induction wordsFrom before bytes with
  | case1 before a b c d rest ih =>
    rw [ih (by simpa [Nat.dvd_add_self_right] using h)]
    simp [bytesOfList, toBytes_ofBytes]
  | case2 bytes before hshort =>
    -- fewer than four bytes that are whole words are none
    obtain _ | ⟨a, _ | ⟨b, _ | ⟨c, _ | ⟨d, rest⟩⟩⟩⟩ := bytes
    · simp
    · simp at h
    · simp at h
    · simp at h
    · exact absurd rfl (hshort a b c d rest)

theorem bytesOfList_listOfBytes {bytes : Bytes} (h : 4 ∣ bytes.length) :
    bytesOfList (listOfBytes bytes) = bytes :=
  bytesOfList_wordsFrom [] h

theorem getElem?_bytesOfList (xs : List Binary32) (p : Nat) :
    (bytesOfList xs)[p]? = xs[p / 4]?.bind (·.toBytes[p % 4]?) := by
  induction xs generalizing p with
  | nil => simp [bytesOfList]
  | cons x xs ih =>
    have hcons : bytesOfList (x :: xs) = x.toBytes ++ bytesOfList xs := rfl
    have hlength : x.toBytes.length = 4 := rfl
    rw [hcons]
    by_cases hp : p < 4
    · rw [List.getElem?_append_left (by omega), Nat.div_eq_of_lt hp, Nat.mod_eq_of_lt hp]
      rfl
    · rw [List.getElem?_append_right (by omega), hlength, ih,
        show p / 4 = (p - 4) / 4 + 1 by omega, show p % 4 = (p - 4) % 4 by omega]
      rfl

theorem bytesOfList_replicate_zero (n : Nat) :
    bytesOfList (List.replicate n 0) = List.replicate (4 * n) 0 := by
  induction n with
  | zero => rfl
  | succ n ih =>
    rw [List.replicate_succ, bytesOfList_cons, ih]
    rfl

end Binary32

namespace Snapshot

open Binary32

/-! ### Names -/

theorem toList_loop (bytes : ByteArray) (i : Nat) (r : List UInt8) :
    ByteArray.toList.loop bytes i r = r.reverse ++ bytes.data.toList.drop i := by
  fun_induction ByteArray.toList.loop bytes i r with
  | case1 i r h ih =>
    have hdrop : bytes.data.toList.drop i = bytes.get! i :: bytes.data.toList.drop (i + 1) := by
      simpa [ByteArray.get!, h] using List.drop_eq_getElem_cons (l := bytes.data.toList) h
    rw [ih, hdrop, List.reverse_cons, List.append_assoc]
    rfl
  | case2 i r h =>
    have hi : bytes.data.toList.length ≤ i := Nat.le_of_not_lt h
    rw [List.drop_of_length_le hi, List.append_nil]

theorem nameBytes_eq_toList (name : String) : nameBytes name = name.toByteArray.data.toList := by
  rw [nameBytes, String.toUTF8, ByteArray.toList, toList_loop]
  rfl

theorem nameBytes_eq_flatMap (name : String) :
    nameBytes name = name.toList.flatMap String.utf8EncodeChar := by
  rw [nameBytes_eq_toList, ← String.ofList_toList (s := name), String.toByteArray_ofList,
    List.utf8Encode]
  simp

theorem nameBytes_injective {name other : String} (h : nameBytes name = nameBytes other) :
    name = other := by
  rw [nameBytes_eq_toList, nameBytes_eq_toList, Array.toList_inj] at h
  exact String.toByteArray_inj.mp (ByteArray.ext h)

/-- In the encoding of a character, a byte below 128 stands for itself. -/
theorem lineFeed_notMem_utf8EncodeChar {c : Char} (h : c ≠ '\n') :
    lineFeed ∉ String.utf8EncodeChar c := by
  have hne : c.val.toNat ≠ 10 := fun h' => h (Char.ext (UInt32.toNat_inj.mp h'))
  have hbyte : ∀ n, n % 256 ≠ 10 → lineFeed ≠ UInt8.ofNat n := by
    intro n hn heq
    rw [← UInt8.toNat_inj, UInt8.toNat_ofNat'] at heq
    exact hn heq.symm
  unfold String.utf8EncodeChar
  dsimp only
  intro hmem
  split_ifs at hmem <;> simp only [List.mem_cons, List.not_mem_nil, or_false] at hmem
  · exact hbyte _ (by omega) hmem
  · obtain hmem | hmem := hmem <;> exact hbyte _ (by omega) hmem
  · obtain hmem | hmem | hmem := hmem <;> exact hbyte _ (by omega) hmem
  · obtain hmem | hmem | hmem | hmem := hmem <;> exact hbyte _ (by omega) hmem

variable {name other : String} {elements : Nat}

theorem lineFeed_notMem_nameBytes (h : isName name) : lineFeed ∉ nameBytes name := by
  rw [nameBytes_eq_flatMap, List.mem_flatMap]
  rintro ⟨c, hc, hmem⟩
  refine lineFeed_notMem_utf8EncodeChar (fun heq => ?_) hmem
  subst heq
  simp [isName, hc] at h

theorem nameBytes_ne_nil (h : isName name) : nameBytes name ≠ [] := by
  intro hnil
  have hempty : name = "" := nameBytes_injective (hnil.trans (nameBytes_eq_flatMap "").symm)
  simp [isName, hempty] at h

theorem takeWhile_of_heading {text : Bytes} (hn : isName name) (h : heading name <+: text) :
    text.takeWhile (· ≠ lineFeed) = nameBytes name := by
  obtain ⟨rest, rfl⟩ := h
  rw [heading, List.append_assoc, List.takeWhile_append_of_pos, List.singleton_append,
    List.takeWhile_cons_of_neg (by simp), List.append_nil]
  intro b hb
  have hne : b ≠ lineFeed := fun heq => lineFeed_notMem_nameBytes hn (heq ▸ hb)
  simpa using hne

/-! ### Lines that count -/

/-- A line starts at a place of a text, which may itself start within a line. -/
def LineAt (atLine : Bool) (text : Bytes) : (place : Nat) → Prop
  | 0 => atLine = true
  | place + 1 => text[place]? = some lineFeed

/-- A line of a text counts as the start of a record: it holds the name, and after it comes a
payload that a line feed or the end of the text follows. -/
structure Counts (name : String) (elements : Nat) (atLine : Bool) (text : Bytes) (place : Nat) :
    Prop where
  line : LineAt atLine text place
  heading : heading name <+: text.drop place
  payload : ∃ values,
    candidate ((text.drop place).drop (Snapshot.heading name).length) elements = .found values

/-- A line of a text holds the name, but the text ends within the payload after it. -/
structure CutAt (name : String) (elements : Nat) (atLine : Bool) (text : Bytes) (place : Nat) :
    Prop where
  line : LineAt atLine text place
  heading : heading name <+: text.drop place
  short : candidate ((text.drop place).drop (Snapshot.heading name).length) elements = .cutShort

instance (atLine : Bool) (text : Bytes) : (place : Nat) → Decidable (LineAt atLine text place)
  | 0 => inferInstanceAs (Decidable (atLine = true))
  | place + 1 => inferInstanceAs (Decidable (text[place]? = some lineFeed))

instance : (c : Candidate) → Decidable (∃ values, c = .found values)
  | .found values => isTrue ⟨values, rfl⟩
  | .cutShort | .otherText => isFalse fun ⟨_, h⟩ => nomatch h

instance (name : String) (elements : Nat) (atLine : Bool) (text : Bytes) (place : Nat) :
    Decidable (Counts name elements atLine text place) :=
  decidable_of_iff (LineAt atLine text place ∧ (heading name).isPrefixOf (text.drop place) ∧
      ∃ values, candidate ((text.drop place).drop (heading name).length) elements =
        .found values) <| by
    rw [List.isPrefixOf_iff_prefix]
    exact ⟨fun ⟨hline, hheading, hpayload⟩ => ⟨hline, hheading, hpayload⟩,
      fun ⟨hline, hheading, hpayload⟩ => ⟨hline, hheading, hpayload⟩⟩

/-- Whether a line ends with a text, or with what comes before it where it is empty. -/
def endsLine : (atLine : Bool) → Bytes → Bool
  | atLine, [] => atLine
  | _, b :: rest => endsLine (b == lineFeed) rest

theorem endsLine_append_lineFeed (atLine : Bool) (text : Bytes) :
    endsLine atLine (text ++ [lineFeed]) = true := by
  induction text generalizing atLine with
  | nil => rfl
  | cons b text ih => exact ih (b == lineFeed)

theorem lineAt_append (before : Bytes) {atLine : Bool} {text : Bytes} {place : Nat} :
    LineAt atLine (before ++ text) (before.length + place) ↔
      LineAt (endsLine atLine before) text place := by
  induction before generalizing atLine with
  | nil => simp [endsLine]
  | cons b before ih =>
    have hshift : LineAt atLine (b :: (before ++ text)) (before.length + place + 1) ↔
        LineAt (b == lineFeed) (before ++ text) (before.length + place) := by
      cases h : before.length + place with
      | zero => simp [LineAt]
      | succ place => simp [LineAt]
    rw [endsLine, ← ih, ← hshift, List.length_cons, Nat.add_right_comm, List.cons_append]

theorem counts_append (before : Bytes) {atLine : Bool} {text : Bytes} {place : Nat} :
    Counts name elements atLine (before ++ text) (before.length + place) ↔
      Counts name elements (endsLine atLine before) text place := by
  have hdrop : (before ++ text).drop (before.length + place) = text.drop place := by
    rw [List.drop_append, List.drop_of_length_le (Nat.le_add_right ..), Nat.add_sub_cancel_left,
      List.nil_append]
  constructor
  · rintro ⟨hline, hheading, hpayload⟩
    rw [hdrop] at hheading hpayload
    exact ⟨(lineAt_append before).mp hline, hheading, hpayload⟩
  · rintro ⟨hline, hheading, hpayload⟩
    rw [← hdrop] at hheading hpayload
    exact ⟨(lineAt_append before).mpr hline, hheading, hpayload⟩

theorem cutAt_cons {atLine : Bool} {b : UInt8} {rest : Bytes} {place : Nat} :
    CutAt name elements atLine (b :: rest) (place + 1) ↔
      CutAt name elements (b == lineFeed) rest place := by
  have hline : LineAt atLine (b :: rest) (place + 1) ↔ LineAt (b == lineFeed) rest place := by
    rw [Nat.add_comm]
    exact lineAt_append [b]
  exact ⟨fun h => ⟨hline.mp h.line, h.heading, h.short⟩,
    fun h => ⟨hline.mpr h.line, h.heading, h.short⟩⟩

/-! ### The reader -/

theorem candidate_found {body : Bytes} {values : List Binary32}
    (h : candidate body elements = .found values) :
    4 * elements ≤ body.length ∧ values = listOfBytes (body.take (4 * elements)) := by
  unfold candidate at h
  dsimp only at h
  split at h
  · cases h
  · next hlong =>
    rw [List.length_take] at hlong
    refine ⟨by omega, ?_⟩
    split at h
    · exact (Candidate.found.inj h).symm
    · split at h
      · exact (Candidate.found.inj h).symm
      · cases h

theorem candidate_cutShort {body : Bytes} (h : candidate body elements = .cutShort) :
    body.length < 4 * elements := by
  unfold candidate at h
  dsimp only at h
  split at h
  · next hshort =>
    rw [List.length_take] at hshort
    omega
  · split at h
    · cases h
    · split at h <;> cases h

theorem candidate_bytesOfList (values : List Binary32) (rest : Bytes) :
    candidate (bytesOfList values ++ lineFeed :: rest) values.length = .found values := by
  have htake : (bytesOfList values ++ lineFeed :: rest).take (4 * values.length) =
      bytesOfList values := by
    rw [← length_bytesOfList, List.take_left]
  have hdrop : (bytesOfList values ++ lineFeed :: rest).drop (4 * values.length) =
      lineFeed :: rest := by
    rw [← length_bytesOfList, List.drop_left]
  unfold candidate
  dsimp only
  rw [htake, hdrop, if_neg (by simp), listOfBytes_bytesOfList]
  simp

/-- Where the text is too short for a payload, it is so before every line that counts. -/
theorem Counts.not_cutAt {atLine : Bool} {text : Bytes} {place earlier : Nat}
    (h : Counts name elements atLine text place) (hle : earlier ≤ place) :
    ¬CutAt name elements atLine text earlier := by
  rintro ⟨-, -, hcut⟩
  obtain ⟨values, hvalues⟩ := h.payload
  have hlong := (candidate_found hvalues).1
  have hshort := candidate_cutShort hcut
  simp only [List.length_drop] at hlong hshort
  omega

theorem findFrom_of_counts (start : Nat) (cut : Bool) {atLine : Bool} {text : Bytes}
    (h : Counts name elements atLine text 0) :
    ∃ values, candidate (text.drop (heading name).length) elements = .found values ∧
      findFrom name elements start atLine cut text = .ok values := by
  obtain ⟨values, hvalues⟩ := h.payload
  have hline : atLine = true := h.line
  have hheading : (heading name).isPrefixOf text = true := List.isPrefixOf_iff_prefix.mpr h.heading
  cases text with
  | nil =>
    have hnil := List.prefix_nil.mp h.heading
    simp [heading] at hnil
  | cons b rest =>
    refine ⟨values, hvalues, ?_⟩
    rw [List.drop_zero] at hvalues
    rw [findFrom, hline, hheading, if_pos (by rfl), hvalues]

section

variable (start : Nat) (cut : Bool) {atLine : Bool} {b : UInt8} {rest : Bytes}

theorem findFrom_skip (h : ¬Counts name elements atLine (b :: rest) 0)
    (whole : ¬CutAt name elements atLine (b :: rest) 0) :
    findFrom name elements start atLine cut (b :: rest) =
      findFrom name elements (start + 1) (b == lineFeed) cut rest := by
  by_cases hline : (atLine && (heading name).isPrefixOf (b :: rest)) = true
  · rw [findFrom, if_pos hline]
    rw [Bool.and_eq_true, List.isPrefixOf_iff_prefix] at hline
    cases hc : candidate ((b :: rest).drop (heading name).length) elements with
    | found values => exact (h ⟨hline.1, hline.2, values, hc⟩).elim
    | cutShort => exact (whole ⟨hline.1, hline.2, hc⟩).elim
    | otherText => rfl
  · rw [findFrom, if_neg hline]

theorem findFrom_cut (h : CutAt name elements atLine (b :: rest) 0) :
    findFrom name elements start atLine cut (b :: rest) =
      requireSize (start + (heading name).length + 4 * elements) >>= fun _ =>
        findFrom name elements (start + 1) (b == lineFeed) true rest := by
  have hline : (atLine && (heading name).isPrefixOf (b :: rest)) = true := by
    rw [Bool.and_eq_true, List.isPrefixOf_iff_prefix]
    exact ⟨h.line, h.heading⟩
  have hshort := h.short
  rw [List.drop_zero] at hshort
  rw [findFrom, if_pos hline, hshort]

end

/-- By induction on a text: the reader goes past it where none of its lines counts and none is
followed by a payload that is cut short. -/
theorem findFrom_append (start : Nat) (cut : Bool) {atLine : Bool} {before text : Bytes}
    (h : ∀ place < before.length, ¬Counts name elements atLine (before ++ text) place)
    (whole : ∀ place < before.length, ¬CutAt name elements atLine (before ++ text) place) :
    findFrom name elements start atLine cut (before ++ text) =
      findFrom name elements (start + before.length) (endsLine atLine before) cut text := by
  induction before generalizing start atLine with
  | nil => rfl
  | cons b before ih =>
    have hskip : findFrom name elements start atLine cut (b :: (before ++ text)) = _ :=
      findFrom_skip start cut (h 0 (Nat.succ_pos _)) (whole 0 (Nat.succ_pos _))
    rw [List.cons_append, hskip, ih, List.length_cons, Nat.add_assoc, Nat.add_comm 1, endsLine]
    · intro place hp hcounts
      refine h (place + 1) (Nat.succ_lt_succ hp) ?_
      rw [Nat.add_comm place 1]
      exact (counts_append [b]).mpr hcounts
    · intro place hp hcut
      exact whole (place + 1) (Nat.succ_lt_succ hp) (cutAt_cons.mpr hcut)

theorem findFrom_succeeds (start : Nat) (cut : Bool) {atLine : Bool} {text : Bytes} {place : Nat}
    (h : Counts name elements atLine text place) :
    ∃ values, values.length = elements ∧
      findFrom name elements start atLine cut text = .ok values := by
  induction text generalizing start atLine place with
  | nil =>
    have hnil := h.heading
    rw [List.drop_nil, List.prefix_nil] at hnil
    simp [heading] at hnil
  | cons b rest ih =>
    by_cases hfirst : Counts name elements atLine (b :: rest) 0
    · obtain ⟨values, hc, hfound⟩ := findFrom_of_counts start cut hfirst
      obtain ⟨hlong, hvalues⟩ := candidate_found hc
      refine ⟨values, ?_, hfound⟩
      rw [hvalues, length_listOfBytes, List.length_take, min_eq_left hlong]
      omega
    · cases place with
      | zero => exact (hfirst h).elim
      | succ place =>
        rw [findFrom_skip start cut hfirst (h.not_cutAt (Nat.zero_le _))]
        rw [Nat.add_comm place 1] at h
        exact ih (start + 1) ((counts_append [b]).mp h)

theorem find_of_counts {stream : Bytes} {place : Nat} (h : Counts name elements true stream place) :
    find stream name elements = findFrom name elements 0 true false stream := by
  obtain ⟨values, hvalues⟩ := h.payload
  have hlong := (candidate_found hvalues).1
  simp only [List.length_drop] at hlong
  have hsize : requireSize (4 * elements) stream.length = .ok () :=
    requireSize_ok_iff.mpr (.inl (by omega))
  rw [find, hsize]
  rfl

/-! ### Records -/

variable {r : String × List Binary32} {before after : List (String × List Binary32)}

def recordBytes (r : String × List Binary32) : Bytes :=
  heading r.1 ++ (bytesOfList r.2 ++ [lineFeed])

def stream (records : List (String × List Binary32)) : Bytes := records.flatMap recordBytes

theorem save_eq {records : List (String × List Binary32)} (h : ∀ r ∈ records, isName r.1) :
    save records = .ok (stream records) := by
  have hrecords : ∀ l : List (String × List Binary32), (∀ r ∈ l, isName r.1) →
      (l.mapM fun r => record r.1 r.2) = .ok (l.map recordBytes) := by
    intro l hl
    refine Except.mapM_ok_iff.mpr (List.forall₂_map_right_iff.mpr (List.forall₂_same.mpr ?_))
    intro r hr
    rw [record, if_pos (hl r hr), recordBytes, List.append_assoc]
  have hsave : save records = (records.mapM fun r => record r.1 r.2) >>=
      fun l => .ok l.flatten := rfl
  rw [hsave, hrecords records h, stream, List.flatMap_def]
  rfl

/-- A payload before the record of a name holds a line that counts as the start of that record. -/
def Masked : (before : List (String × List Binary32)) → (r : String × List Binary32) →
    (after : List (String × List Binary32)) → Prop
  | [], _, _ => False
  | (_, values) :: before, r, after =>
    (∃ place < (bytesOfList values).length, Counts r.1 r.2.length true
      (bytesOfList values ++ lineFeed :: stream (before ++ r :: after)) place) ∨
    Masked before r after

instance decidableMasked (r : String × List Binary32) (after : List (String × List Binary32)) :
    (before : List (String × List Binary32)) → Decidable (Masked before r after)
  | [] => isFalse id
  | _ :: before =>
    have := decidableMasked r after before
    inferInstanceAs (Decidable (_ ∨ Masked before r after))

theorem not_counts_heading {atLine : Bool} {text : Bytes} {place : Nat} (hn : isName name)
    (ho : isName other) (hne : other ≠ name) (hp : place < (heading other).length) :
    ¬Counts name elements atLine (heading other ++ text) place := by
  rintro ⟨hline, hheading, -⟩
  cases place with
  | zero =>
    have hname := takeWhile_of_heading hn hheading
    rw [List.drop_zero, takeWhile_of_heading ho (List.prefix_append _ _)] at hname
    exact hne (nameBytes_injective hname)
  | succ place =>
    have hlt : place < (nameBytes other).length := by
      simpa [heading] using hp
    have hbyte : (heading other ++ text)[place]? = some lineFeed := hline
    rw [heading, List.append_assoc, List.getElem?_append_left hlt] at hbyte
    exact lineFeed_notMem_nameBytes ho (List.mem_of_getElem? hbyte)

/-- No line of a record counts as the start of another, unless one in its payload does. -/
theorem not_counts_recordBytes {r' : String × List Binary32} {text : Bytes} {place : Nat}
    (hn : isName name) (ho : isName r'.1) (hne : r'.1 ≠ name)
    (clear : ∀ place < (bytesOfList r'.2).length,
      ¬Counts name elements true (bytesOfList r'.2 ++ lineFeed :: text) place)
    (hp : place < (recordBytes r').length) :
    ¬Counts name elements true (recordBytes r' ++ text) place := by
  intro h
  rw [recordBytes, List.append_assoc, List.append_assoc, List.singleton_append] at h
  by_cases hheading : place < (heading r'.1).length
  · exact not_counts_heading hn ho hne hheading h
  obtain ⟨q, rfl⟩ := Nat.exists_eq_add_of_le (Nat.le_of_not_lt hheading)
  rw [counts_append, heading, endsLine_append_lineFeed] at h
  by_cases hpayload : q < (bytesOfList r'.2).length
  · exact clear q hpayload h
  have hq : q = (bytesOfList r'.2).length := by
    simp only [recordBytes, List.length_append, List.length_singleton] at hp
    omega
  -- what is left is the line feed that ends the record, and no name starts with one
  have hlast := takeWhile_of_heading hn h.heading
  rw [hq, List.drop_left, List.takeWhile_cons_of_neg (by simp)] at hlast
  exact nameBytes_ne_nil hn hlast.symm

theorem counts_recordBytes (r : String × List Binary32) (text : Bytes) :
    Counts r.1 r.2.length true (recordBytes r ++ text) 0 := by
  have hassoc : recordBytes r ++ text =
      heading r.1 ++ (bytesOfList r.2 ++ lineFeed :: text) := by
    rw [recordBytes, List.append_assoc, List.append_assoc, List.singleton_append]
  rw [hassoc]
  refine ⟨rfl, List.prefix_append _ _, r.2, ?_⟩
  rw [List.drop_zero, List.drop_left, candidate_bytesOfList]

theorem stream_cons (r : String × List Binary32) (l : List (String × List Binary32)) :
    stream (r :: l) = recordBytes r ++ stream l := rfl

theorem stream_append (l l' : List (String × List Binary32)) :
    stream (l ++ l') = stream l ++ stream l' := List.flatMap_append

theorem endsLine_recordBytes (atLine : Bool) (r : String × List Binary32) :
    endsLine atLine (recordBytes r) = true := by
  rw [recordBytes, ← List.append_assoc]
  exact endsLine_append_lineFeed _ _

theorem endsLine_stream (l : List (String × List Binary32)) : endsLine true (stream l) = true := by
  induction l using List.reverseRecOn with
  | nil => rfl
  | append_singleton l r _ =>
    have hlast : stream (l ++ [r]) =
        stream l ++ heading r.1 ++ bytesOfList r.2 ++ [lineFeed] := by
      rw [stream_append, stream_cons, recordBytes]
      simp only [List.append_assoc]
      rfl
    rw [hlast]
    exact endsLine_append_lineFeed _ _

theorem counts_stream (before after : List (String × List Binary32))
    (r : String × List Binary32) :
    Counts r.1 r.2.length true (stream (before ++ r :: after)) (stream before).length := by
  rw [stream_append, ← Nat.add_zero (stream before).length, counts_append, endsLine_stream,
    stream_cons]
  exact counts_recordBytes r _

theorem find_stream_succeeds (before after : List (String × List Binary32))
    (r : String × List Binary32) :
    ∃ values, values.length = r.2.length ∧
      find (stream (before ++ r :: after)) r.1 r.2.length = .ok values := by
  have hcounts := counts_stream before after r
  rw [find_of_counts hcounts]
  exact findFrom_succeeds 0 false hcounts

/-- A record that no payload masks is found, by induction on the records before it. -/
theorem findFrom_stream (start : Nat) (hr : isName r.1)
    (names : ∀ r' ∈ before, isName r'.1 ∧ r'.1 ≠ r.1) (clear : ¬Masked before r after) :
    findFrom r.1 r.2.length start true false (stream (before ++ r :: after)) = .ok r.2 := by
  have hcounts := counts_stream before after r
  induction before generalizing start with
  | nil =>
    rw [List.nil_append, stream_cons]
    obtain ⟨values, hc, hfound⟩ := findFrom_of_counts start false (counts_recordBytes r _)
    rw [recordBytes, List.append_assoc, List.drop_left, List.append_assoc, List.singleton_append,
      candidate_bytesOfList] at hc
    rw [hfound, ← Candidate.found.inj hc]
  | cons r' before ih =>
    obtain ⟨ho, hne⟩ := names r' List.mem_cons_self
    obtain ⟨hplain, hclear⟩ := not_or.mp clear
    rw [List.cons_append, stream_cons, stream_cons, List.length_append] at hcounts
    rw [List.cons_append, stream_cons, findFrom_append start false, endsLine_recordBytes]
    · exact ih _ (fun r' hr' => names r' (List.mem_cons_of_mem _ hr')) hclear
        (counts_stream before after r)
    · intro place hp
      exact not_counts_recordBytes hr ho hne (fun q hq hcounts => hplain ⟨q, hq, hcounts⟩) hp
    · intro place hp
      exact hcounts.not_cutAt (by omega)

theorem find_stream (hr : isName r.1) (names : ∀ r' ∈ before, isName r'.1 ∧ r'.1 ≠ r.1)
    (clear : ¬Masked before r after) :
    find (stream (before ++ r :: after)) r.1 r.2.length = .ok r.2 :=
  (find_of_counts (counts_stream before after r)).trans (findFrom_stream 0 hr names clear)

end Snapshot

end Backprop
