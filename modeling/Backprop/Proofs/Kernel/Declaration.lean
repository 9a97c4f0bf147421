import Mathlib
import Backprop.Error
import Backprop.Kernel.Declaration

/-! Kernel declarations, told by their places in a text. The scan finds the name of every
declaration and nothing else, and where it cuts the text it cuts between two characters. -/

namespace Backprop.Declaration

variable {before after text rest word : List Char} {name name' : String} {place : Nat}

/-! ### Declarations -/

def Fresh (before : List Char) : Prop := ∀ c ∈ before.getLast?, isNameChar c = false

def StartsWord (before : List Char) : Prop :=
  Fresh before ∨ ∃ earlier, before = earlier ++ ['_', '_'] ∧ Fresh earlier

/-- A text declares a name from its start on: blanks, `void`, blanks, the name, and an opening
parenthesis that blanks may precede. Neither a blank nor the parenthesis belongs to a name, so the
name goes as far as it can. -/
def Heads (name : String) (text : List Char) : Prop :=
  ∃ gap gap' gap'' rest,
    text = gap ++ "void".toList ++ gap' ++ name.toList ++ gap'' ++ '(' :: rest ∧
      gap ≠ [] ∧ gap' ≠ [] ∧ name.toList ≠ [] ∧
      (∀ c ∈ gap ++ gap' ++ gap'', isBlank c = true) ∧ ∀ c ∈ name.toList, isNameChar c = true

/-- A declaration of a name starts with the word `kernel` at a place of a text. -/
def DeclaredAt (text : List Char) (place : Nat) (name : String) : Prop :=
  ∃ before after, text = before ++ "kernel".toList ++ after ∧ before.length = place ∧
    StartsWord before ∧ Heads name after

/-! ### What may come before the word -/

theorem fresh_append (before : List Char) (c : Char) :
    Fresh (before ++ [c]) ↔ isNameChar c = false := by
  simp [Fresh]

theorem ends_with_underscores (before earlier : List Char) (d : Char) :
    before ++ [d] ++ ['_'] = earlier ++ ['_', '_'] ↔ earlier = before ∧ d = '_' := by
  rw [show earlier ++ ['_', '_'] = earlier ++ ['_'] ++ ['_'] by simp, List.append_left_inj,
    List.append_singleton_inj, eq_comm]

theorem startsWord_iff : startsWord before.reverse = true ↔ StartsWord before := by
  have hname : isNameChar '_' = true := by decide
  rcases List.eq_nil_or_concat before with rfl | ⟨before, c, rfl⟩
  · simp [startsWord, StartsWord, Fresh]
  rw [List.concat_eq_append, StartsWord, fresh_append]
  by_cases hc : c = '_'
  · subst hc
    rcases List.eq_nil_or_concat before with rfl | ⟨before, d, rfl⟩
    · have hshort : ¬∃ earlier, [] ++ ['_'] = earlier ++ ['_', '_'] ∧ Fresh earlier := by
        rintro ⟨earlier, he, -⟩
        have hh := congrArg List.length he
        simp at hh
      rw [or_iff_left hshort]
      simp [startsWord, hname]
    · simp only [List.concat_eq_append, ends_with_underscores, hname, Bool.true_eq_false, false_or]
      by_cases hd : d = '_'
      · subst hd
        rcases List.eq_nil_or_concat before with rfl | ⟨before, e, rfl⟩
        · simp [startsWord, Fresh]
        · simp [startsWord, Fresh]
      · simp [startsWord, hname, hd]
  · have hlast : ¬∃ earlier, before ++ [c] = earlier ++ ['_', '_'] ∧ Fresh earlier := by
      rintro ⟨earlier, he, -⟩
      have hh := congrArg List.getLast? he
      simp [hc] at hh
    rw [or_iff_left hlast]
    simp [startsWord, hc]

/-! ### What follows the word -/

theorem isNameChar_of_isBlank {c : Char} (h : isBlank c = true) : isNameChar c = false := by
  simp only [isBlank, blankTable, List.contains_iff_mem, List.mem_cons, List.not_mem_nil,
    or_false] at h
  have hline : c = '_' ↔ c.toNat = 95 := Char.toNat_inj.symm
  have hval : c.val.toNat = c.toNat := rfl
  simp only [isNameChar, Char.isAlphanum, Char.isAlpha, Char.isUpper, Char.isLower, Char.isDigit,
    Bool.or_eq_false_iff, beq_eq_false_iff_ne, ne_eq, hline]
  simp [UInt32.le_iff_toNat_le, hval]
  omega

theorem afterWord?_eq_some_iff : afterWord? word text = some rest ↔ text = word ++ rest := by
  unfold afterWord?
  constructor
  · intro h
    split at h
    · next hp =>
      obtain ⟨rest', rfl⟩ := List.isPrefixOf_iff_prefix.mp hp
      rw [List.drop_left] at h
      rw [Option.some.inj h]
    · cases h
  · rintro rfl
    rw [if_pos (List.isPrefixOf_iff_prefix.mpr (List.prefix_append ..)), List.drop_left]

theorem dropBlanks_append {gap : List Char} (hgap : ∀ c ∈ gap, isBlank c = true)
    (hrest : ∀ c ∈ rest.head?, isBlank c = false) : dropBlanks (gap ++ rest) = rest := by
  rw [dropBlanks, List.dropWhile_append_of_pos hgap]
  cases rest with
  | nil => rfl
  | cons c rest => simp [hrest c rfl]

theorem exists_dropBlanks (text : List Char) : ∃ gap, text = gap ++ dropBlanks text ∧
    (∀ c ∈ gap, isBlank c = true) ∧ ∀ c ∈ (dropBlanks text).head?, isBlank c = false := by
  refine ⟨text.takeWhile isBlank, List.takeWhile_append_dropWhile.symm,
    fun c hc => List.mem_takeWhile_imp hc, fun c hc => ?_⟩
  have hh := List.head?_dropWhile_not isBlank text
  rw [← dropBlanks, Option.mem_def.mp hc] at hh
  exact hh

theorem afterBlanks?_eq_some_iff : afterBlanks? text = some rest ↔
    ∃ gap, text = gap ++ rest ∧ gap ≠ [] ∧ (∀ c ∈ gap, isBlank c = true) ∧
      ∀ c ∈ rest.head?, isBlank c = false := by
  cases text with
  | nil =>
    simp only [afterBlanks?, reduceCtorEq, false_iff]
    rintro ⟨gap, he, hne, -⟩
    exact hne (List.append_eq_nil_iff.mp he.symm).1
  | cons c text =>
    simp only [afterBlanks?]
    constructor
    · intro h
      split at h
      · next hc =>
        obtain ⟨gap, he, hgap, hhead⟩ := exists_dropBlanks text
        cases h
        refine ⟨c :: gap, congrArg (c :: ·) he, by simp, ?_, hhead⟩
        exact List.forall_mem_cons.mpr ⟨hc, hgap⟩
      · cases h
    · rintro ⟨gap, he, hne, hgap, hhead⟩
      obtain ⟨d, gap, rfl⟩ := List.exists_cons_of_ne_nil hne
      rw [List.cons_append, List.cons.injEq] at he
      obtain ⟨rfl, rfl⟩ := he
      rw [if_pos (hgap c List.mem_cons_self),
        dropBlanks_append (fun d hd => hgap d (List.mem_cons_of_mem _ hd)) hhead]

theorem takeWhile_name {name last : List Char} (hname : ∀ c ∈ name, isNameChar c = true)
    (hlast : ∀ c ∈ last.head?, isNameChar c = false) :
    (name ++ last).takeWhile isNameChar = name ∧ (name ++ last).dropWhile isNameChar = last := by
  rw [List.takeWhile_append_of_pos hname, List.dropWhile_append_of_pos hname]
  cases last with
  | nil => simp
  | cons c last => simp [hlast c rfl]

theorem declaredName?_eq_some_iff : declaredName? text = some name ↔ Heads name text := by
  have hopen : isBlank '(' = false ∧ isNameChar '(' = false := by decide
  have hv : isBlank 'v' = false := by decide
  unfold declaredName?
  simp only [Option.bind_eq_bind, Option.bind_eq_some_iff, afterBlanks?_eq_some_iff,
    afterWord?_eq_some_iff]
  constructor
  · rintro ⟨_, ⟨gap, rfl, hne, hgap, -⟩, last, rfl, text, ⟨gap', rfl, hne', hgap', -⟩, h⟩
    split_ifs at h with hempty hparen
    obtain ⟨gap'', hlast, hgap'', -⟩ := exists_dropBlanks (text.dropWhile isNameChar)
    obtain ⟨rest, hrest⟩ := List.head?_eq_some_iff.mp hparen
    cases h
    refine ⟨gap, gap', gap'', rest, ?_, hne, hne', ?_, ?_, ?_⟩
    · simp only [String.toList_ofList, ← hrest, List.append_assoc, ← hlast,
        List.takeWhile_append_dropWhile]
    · rw [String.toList_ofList]
      simpa using hempty
    · simp only [List.mem_append]
      rintro c ((hc | hc) | hc)
      · exact hgap c hc
      · exact hgap' c hc
      · exact hgap'' c hc
    · rw [String.toList_ofList]
      exact fun c hc => List.mem_takeWhile_imp hc
  · rintro ⟨gap, gap', gap'', rest, rfl, hne, hne', hname, hgaps, hchars⟩
    simp only [List.mem_append] at hgaps
    have hafter : ∀ c ∈ (gap'' ++ '(' :: rest).head?, isNameChar c = false := by
      cases gap'' with
      | nil => simp [hopen.2]
      | cons c gap'' => simpa using isNameChar_of_isBlank (hgaps c (.inr List.mem_cons_self))
    obtain ⟨htake, hdrop⟩ := takeWhile_name hchars hafter
    refine ⟨"void".toList ++ (gap' ++ (name.toList ++ (gap'' ++ '(' :: rest))),
      ⟨gap, by simp, hne, fun c hc => hgaps c (.inl (.inl hc)), by simp [hv]⟩, _, rfl,
      name.toList ++ (gap'' ++ '(' :: rest),
      ⟨gap', rfl, hne', fun c hc => hgaps c (.inl (.inr hc)), ?_⟩, ?_⟩
    · obtain ⟨c, chars, hc⟩ := List.exists_cons_of_ne_nil hname
      have hnot : isBlank c = false := by
        by_contra hb
        have hh := isNameChar_of_isBlank (Bool.of_not_eq_false hb)
        rw [hchars c (hc ▸ List.mem_cons_self)] at hh
        cases hh
      simpa [hc] using hnot
    · rw [htake, hdrop, dropBlanks_append (fun c hc => hgaps c (.inr hc)) (by simp [hopen.1])]
      simp [hname]

/-! ### From one place of the word to the next -/

def declaration (before after : List Char) : Option String :=
  if startsWord before then declaredName? after else none

/-- The word `kernel` starts nowhere in a text, as far as the text after it tells. -/
def Misses (skipped rest : List Char) : Prop :=
  ∀ place < skipped.length, ¬"kernel".toList <+: (skipped ++ rest).drop place

theorem declaredAt_iff :
    DeclaredAt (before ++ "kernel".toList ++ after) before.length name ↔
      declaration before.reverse after = some name := by
  rw [declaration, Option.ite_none_right_eq_some, startsWord_iff, declaredName?_eq_some_iff]
  constructor
  · rintro ⟨before', after', he, hlength, hstarts, hheads⟩
    rw [List.append_assoc, List.append_assoc] at he
    obtain ⟨hbefore, he⟩ := List.append_inj he hlength.symm
    rw [hbefore, List.append_cancel_left he]
    exact ⟨hstarts, hheads⟩
  · rintro ⟨hstarts, hheads⟩
    exact ⟨before, after, rfl, rfl, hstarts, hheads⟩

theorem DeclaredAt.heading (h : DeclaredAt text place name) :
    "kernel".toList <+: text.drop place := by
  obtain ⟨before, after, rfl, rfl, -⟩ := h
  rw [List.append_assoc, List.drop_left]
  exact List.prefix_append ..

theorem DeclaredAt.place_lt (h : DeclaredAt text place name) : place < text.length := by
  obtain ⟨before, after, rfl, rfl, -⟩ := h
  have hword : "kernel".toList.length = 6 := by decide
  simp only [List.length_append]
  omega

theorem Misses.not_declaredAt {skipped : List Char} (hm : Misses skipped rest)
    (hle : before.length ≤ place) (hlt : place < before.length + skipped.length) :
    ¬DeclaredAt (before ++ (skipped ++ rest)) place name := by
  intro h
  have hword := h.heading
  rw [List.drop_append, List.drop_eq_nil_of_le hle, List.nil_append] at hword
  exact hm (place - before.length) (by omega) hword

theorem DeclaredAt.unique (h : DeclaredAt text place name) (h' : DeclaredAt text place name') :
    name = name' := by
  obtain ⟨before, after, rfl, rfl, hrest⟩ := h
  have hname := declaredAt_iff.mp ⟨before, after, rfl, rfl, hrest⟩
  rw [declaredAt_iff.mp h', Option.some.injEq] at hname
  exact hname.symm

theorem misses_kernel (after : List Char) {j : Nat} (hpos : 0 < j) (hlt : j < 6) :
    ¬"kernel".toList <+: ("kernel".toList ++ after).drop j := by
  interval_cases j <;> simp

theorem misses_or_splits (text : List Char) :
    Misses text [] ∨ ∃ skipped after, text = skipped ++ ("kernel".toList ++ after) ∧
      Misses skipped ("kernel".toList ++ after) := by
  induction text with
  | nil => exact .inl (by simp [Misses])
  | cons c text ih =>
    by_cases hp : "kernel".toList <+: c :: text
    · obtain ⟨after, he⟩ := hp
      exact .inr ⟨[], after, he.symm, by simp [Misses]⟩
    have hcons : ∀ skipped rest, skipped ++ rest = text → Misses skipped rest →
        Misses (c :: skipped) rest := by
      rintro skipped rest rfl hm place hlt
      cases place with
      | zero => exact hp
      | succ place => exact hm place (Nat.lt_of_succ_lt_succ hlt)
    obtain hm | ⟨skipped, after, rfl, hm⟩ := ih
    · exact .inl (hcons text [] (List.append_nil _) hm)
    · exact .inr ⟨c :: skipped, after, rfl, hcons _ _ rfl hm⟩

/-- A text is read from one place of the word to the next. -/
theorem occurrences_induction {motive : (before text : List Char) → Prop}
    (none : ∀ before text, Misses text [] → motive before text)
    (word : ∀ before skipped after, Misses skipped ("kernel".toList ++ after) →
      motive (before ++ skipped ++ "kernel".toList) after →
      motive before (skipped ++ ("kernel".toList ++ after))) (before text : List Char) :
    motive before text := by
  induction hlength : text.length using Nat.strong_induction_on generalizing before text with
  | _ length ih =>
    obtain hm | ⟨skipped, after, rfl, hm⟩ := misses_or_splits text
    · exact none before text hm
    · refine word before skipped after hm (ih _ ?_ _ after rfl)
      simp only [List.length_append] at hlength
      have hword : "kernel".toList.length = 6 := by decide
      omega

/-! ### The names found -/

theorem namesFrom_skip (before word rest : List Char) :
    namesFrom before word.length (word ++ rest) = namesFrom (word.reverse ++ before) 0 rest := by
  induction word generalizing before with
  | nil => rfl
  | cons c word ih =>
    rw [List.length_cons, List.cons_append, namesFrom, ih, List.reverse_cons, List.append_assoc]
    rfl

theorem namesFrom_misses (before : List Char) {skipped : List Char} (hm : Misses skipped rest) :
    namesFrom before 0 (skipped ++ rest) = namesFrom (skipped.reverse ++ before) 0 rest := by
  induction skipped generalizing before with
  | nil => rfl
  | cons c skipped ih =>
    have hnone : afterWord? "kernel".toList (c :: (skipped ++ rest)) = none := by
      rw [afterWord?, if_neg]
      rw [List.isPrefixOf_iff_prefix]
      exact hm 0 (Nat.zero_lt_succ _)
    rw [List.cons_append, namesFrom, hnone]
    simp only
    rw [ih _ fun place hlt => hm (place + 1) (Nat.succ_lt_succ hlt), List.reverse_cons,
      List.append_assoc]
    rfl

theorem namesFrom_kernel (before after : List Char) :
    namesFrom before 0 ("kernel".toList ++ after) =
      (declaration before after).toList ++
        namesFrom ("kernel".toList.reverse ++ before) 0 after := by
  have hword : "kernel".toList = 'k' :: "ernel".toList := by decide
  have hafter : afterWord? "kernel".toList ('k' :: ("ernel".toList ++ after)) = some after :=
    afterWord?_eq_some_iff.mpr (by rw [hword]; rfl)
  have hskip := namesFrom_skip ('k' :: before) "ernel".toList after
  rw [hword, List.cons_append, namesFrom, hafter, declaration]
  simp only
  rw [show 5 = "ernel".toList.length by decide, hskip, List.reverse_cons, List.append_assoc]
  by_cases hstarts : startsWord before = true
  · rw [if_pos hstarts, if_pos hstarts]
    cases declaredName? after <;> rfl
  · rw [if_neg hstarts, if_neg hstarts]
    rfl

theorem namesFrom_next (before : List Char) {skipped after : List Char}
    (hm : Misses skipped ("kernel".toList ++ after)) :
    namesFrom before.reverse 0 (skipped ++ ("kernel".toList ++ after)) =
      (declaration (before ++ skipped).reverse after).toList ++
        namesFrom (before ++ skipped ++ "kernel".toList).reverse 0 after := by
  have hreverse : (before ++ skipped ++ "kernel".toList).reverse =
      "kernel".toList.reverse ++ (skipped.reverse ++ before.reverse) := by
    rw [List.reverse_append, List.reverse_append]
  rw [namesFrom_misses _ hm, namesFrom_kernel, hreverse, List.reverse_append]

theorem namesFrom_last (before : List Char) (hm : Misses text []) :
    namesFrom before.reverse 0 text = [] := by
  have hh := namesFrom_misses before.reverse hm
  rwa [List.append_nil] at hh

/-- From a place of a text on, the names are those of the declarations there, in their order. -/
theorem namesFrom_places (before text : List Char) : ∃ places : List Nat,
    places.Pairwise (· < ·) ∧
      (∀ place, place ∈ places ↔
        before.length ≤ place ∧ ∃ name, DeclaredAt (before ++ text) place name) ∧
      List.Forall₂ (DeclaredAt (before ++ text)) places (namesFrom before.reverse 0 text) := by
  induction before, text using occurrences_induction with
  | none before text hm =>
    refine ⟨[], .nil, fun place => ?_, by rw [namesFrom_last before hm]; exact .nil⟩
    simp only [List.not_mem_nil, false_iff, not_and, not_exists]
    intro hle name h
    have hlt := h.place_lt
    rw [List.length_append] at hlt
    have hnot : ¬DeclaredAt (before ++ (text ++ [])) place name := hm.not_declaredAt hle hlt
    rw [List.append_nil] at hnot
    exact hnot h
  | word before skipped after hm ih =>
    obtain ⟨places, hsorted, hmem, hnames⟩ := ih
    have htext : before ++ (skipped ++ ("kernel".toList ++ after)) =
        before ++ skipped ++ "kernel".toList ++ after := by simp only [List.append_assoc]
    have hword : "kernel".toList.length = 6 := by decide
    -- the next place at which something can be declared is that of the word
    have hplace : ∀ place name, before.length ≤ place →
        DeclaredAt (before ++ skipped ++ "kernel".toList ++ after) place name →
        place = (before ++ skipped).length ∧
            declaration (before ++ skipped).reverse after = some name ∨
          (before ++ skipped ++ "kernel".toList).length ≤ place := by
      intro place name hle h
      simp only [List.length_append, hword]
      obtain hlt | rfl | hlt := Nat.lt_trichotomy place (before.length + skipped.length)
      · rw [← htext] at h
        exact absurd h (hm.not_declaredAt hle hlt)
      · rw [← List.length_append] at h ⊢
        exact .inl ⟨rfl, declaredAt_iff.mp h⟩
      · by_contra hnot
        have hheading := h.heading
        have hpassed : (before ++ skipped).drop place = [] :=
          List.drop_eq_nil_of_le (by rw [List.length_append]; omega)
        rw [List.append_assoc, List.drop_append, hpassed, List.nil_append,
          List.length_append] at hheading
        exact misses_kernel after (by omega) (by omega) hheading
    have hbefore : before.length ≤ (before ++ skipped).length := by simp
    have hpast : (before ++ skipped).length < (before ++ skipped ++ "kernel".toList).length := by
      simp
    rw [htext, namesFrom_next before hm]
    cases hd : declaration (before ++ skipped).reverse after with
    | none =>
      refine ⟨places, hsorted, fun place => (hmem place).trans ⟨?_, ?_⟩, hnames⟩
      · rintro ⟨hle, h⟩
        exact ⟨by omega, h⟩
      · rintro ⟨hle, name, h⟩
        obtain ⟨-, hsome⟩ | hle' := hplace place name hle h
        · rw [hd] at hsome
          cases hsome
        · exact ⟨hle', name, h⟩
    | some name =>
      have hhere : DeclaredAt (before ++ skipped ++ "kernel".toList ++ after)
          (before ++ skipped).length name := declaredAt_iff.mpr hd
      refine ⟨(before ++ skipped).length :: places, ?_, fun place => ?_, .cons hhere hnames⟩
      · refine List.pairwise_cons.mpr ⟨fun place hp => ?_, hsorted⟩
        exact hpast.trans_le ((hmem place).mp hp).1
      · rw [List.mem_cons, hmem]
        constructor
        · rintro (rfl | ⟨hle, h⟩)
          · exact ⟨hbefore, name, hhere⟩
          · exact ⟨by omega, h⟩
        · rintro ⟨hle, name', h⟩
          obtain ⟨heq, -⟩ | hle' := hplace place name' hle h
          · exact .inl heq
          · exact .inr ⟨hle', name', h⟩

/-! ### The scan by byte offsets -/

def byteLength (text : List Char) : Nat := (text.map Char.utf8Size).sum

def cut : (offset : Nat) → List Char → Except Error (List Char × List Char)
  | 0, text => .ok ([], text)
  | _ + 1, [] => .error (.fault .outOfBounds)
  | offset + 1, c :: rest =>
    if offset + 1 < c.utf8Size then .error (.fault .outOfBounds)
    else match cut (offset + 1 - c.utf8Size) rest with
      | .ok (first, last) => .ok (c :: first, last)
      | .error e => .error e

def offset? : List Char → Option Nat
  | [] => none
  | c :: rest =>
    if "kernel".toList.isPrefixOf (c :: rest) then some 0
    else (offset? rest).map (c.utf8Size + ·)

/-- Whether the word may start at an offset, told by up to three characters before it. -/
def startsWordAt (source : List Char) (start : Nat) : Except Error Bool := do
  let (before, _) ← cut start source
  match before.getLast? with
  | none => return true
  | some c =>
    if c = '_' then
      if ['_', '_'].isSuffixOf before then
        let (earlier, _) ← cut (start - 2) source
        return earlier.getLast?.all fun c => !isNameChar c
      else return false
    else return !isNameChar c

def declaredNameAt? (source : List Char) (stop : Nat) : Except Error (Option String) := do
  let (_, rest) ← cut stop source
  let trimmed := dropBlanks rest
  if byteLength trimmed = byteLength rest then return none
  match afterWord? "void".toList trimmed with
  | none => return none
  | some rest =>
    let text := dropBlanks rest
    if byteLength text = byteLength rest then return none
    let name := text.takeWhile isNameChar
    if name.isEmpty then return none
    let (_, last) ← cut (byteLength name) text
    return if (dropBlanks last).head? = some '(' then some (String.ofList name) else none

theorem byteLength_append (first last : List Char) :
    byteLength (first ++ last) = byteLength first + byteLength last := by
  simp [byteLength]

theorem byteLength_cons (c : Char) (text : List Char) :
    byteLength (c :: text) = c.utf8Size + byteLength text := by
  simp [byteLength]

theorem cut_append (first last : List Char) :
    cut (byteLength first) (first ++ last) = .ok (first, last) := by
  induction first with
  | nil => cases last <;> rfl
  | cons c first ih =>
    have hpos := c.utf8Size_pos
    obtain ⟨k, hk⟩ : ∃ k, byteLength (c :: first) = k + 1 :=
      Nat.exists_eq_succ_of_ne_zero (by rw [byteLength_cons]; omega)
    have hrest : k + 1 - c.utf8Size = byteLength first := by
      rw [← hk, byteLength_cons, Nat.add_sub_cancel_left]
    rw [byteLength_cons] at hk
    rw [byteLength_cons, hk, List.cons_append, cut, if_neg (by omega), hrest, ih]

theorem cut_ok {offset : Nat} {first last : List Char} (h : cut offset text = .ok (first, last)) :
    text = first ++ last ∧ byteLength first = offset := by
  fun_induction cut offset text generalizing first with
  | case1 text =>
    cases h
    exact ⟨rfl, rfl⟩
  | case2 => cases h
  | case3 => cases h
  | case4 offset c rest hlt first' last' hcut ih =>
    cases h
    obtain ⟨rfl, hlength⟩ := ih hcut
    rw [byteLength_cons]
    exact ⟨rfl, by omega⟩
  | case5 => cases h

theorem offset?_misses {skipped : List Char} (hm : Misses skipped rest) :
    offset? (skipped ++ rest) = (offset? rest).map (byteLength skipped + ·) := by
  induction skipped with
  | nil =>
    have hzero : (byteLength [] + ·) = id := by
      funext k
      exact Nat.zero_add k
    rw [hzero, Option.map_id_fun, id, List.nil_append]
  | cons c skipped ih =>
    have hnot : ¬"kernel".toList.isPrefixOf (c :: (skipped ++ rest)) = true := by
      rw [List.isPrefixOf_iff_prefix]
      exact hm 0 (Nat.zero_lt_succ _)
    rw [List.cons_append, offset?, if_neg hnot,
      ih fun place hlt => hm (place + 1) (Nat.succ_lt_succ hlt), Option.map_map]
    congr 1
    funext k
    rw [Function.comp_apply, byteLength_cons, Nat.add_assoc]

theorem offset?_kernel (after : List Char) : offset? ("kernel".toList ++ after) = some 0 := by
  have hword : "kernel".toList = 'k' :: "ernel".toList := by decide
  have hp : "kernel".toList.isPrefixOf ("kernel".toList ++ after) = true :=
    List.isPrefixOf_iff_prefix.mpr (List.prefix_append ..)
  rw [hword] at hp ⊢
  rw [List.cons_append] at hp ⊢
  rw [offset?, hword, if_pos hp]

theorem offset?_le {found : Nat} (h : offset? text = some found) :
    found + 6 ≤ byteLength text := by
  have hword : byteLength "kernel".toList = 6 := by decide
  obtain hm | ⟨skipped, after, rfl, hm⟩ := misses_or_splits text
  · have hnone := offset?_misses hm
    rw [List.append_nil, h] at hnone
    cases hnone
  · rw [offset?_misses hm, offset?_kernel] at h
    rw [Option.map_some, Option.some.injEq, Nat.add_zero] at h
    rw [byteLength_append, byteLength_append, hword]
    omega

def scanFrom (source : List Char) (search : Nat) : Except Error (List String) :=
  match _hcut : cut search source with
  | .error e => .error e
  | .ok (_, rest) =>
    match _hfound : offset? rest with
    | none => .ok []
    | some found => do
      let start := search + found
      let stop := start + 6
      let name? ← if ← startsWordAt source start then declaredNameAt? source stop else pure none
      let later ← scanFrom source stop
      return name?.toList ++ later
termination_by byteLength source - search
decreasing_by
  obtain ⟨rfl, rfl⟩ := cut_ok _hcut
  have hle := offset?_le _hfound
  rw [byteLength_append]
  omega

theorem scanFrom_of_none {source first : List Char} {search : Nat}
    (hcut : cut search source = .ok (first, rest)) (hfound : offset? rest = none) :
    scanFrom source search = .ok [] := by
  rw [scanFrom]
  split
  · simp_all
  · split <;> simp_all

theorem scanFrom_of_some {source first : List Char} {search found : Nat}
    (hcut : cut search source = .ok (first, rest)) (hfound : offset? rest = some found) :
    scanFrom source search = do
      let name? ← if ← startsWordAt source (search + found) then
        declaredNameAt? source (search + found + 6) else pure none
      let later ← scanFrom source (search + found + 6)
      return name?.toList ++ later := by
  rw [scanFrom]
  split
  · simp_all
  · split <;> simp_all

theorem startsWordAt_eq (before rest : List Char) :
    startsWordAt (before ++ rest) (byteLength before) = .ok (startsWord before.reverse) := by
  rw [startsWordAt, cut_append]
  rcases List.eq_nil_or_concat before with rfl | ⟨before, c, rfl⟩
  · rfl
  simp only [bind, Except.bind, List.concat_eq_append, List.getLast?_concat]
  by_cases hc : c = '_'
  · subst hc
    rcases List.eq_nil_or_concat before with rfl | ⟨before, d, rfl⟩
    · rfl
    by_cases hd : d = '_'
    · subst hd
      have hlength : byteLength (before ++ ['_'] ++ ['_']) - 2 = byteLength before := by
        rw [byteLength_append, byteLength_append]
        rfl
      have hsuffix : ['_', '_'].isSuffixOf (before ++ ['_'] ++ ['_']) = true := by
        rw [List.isSuffixOf_iff_suffix, List.append_assoc]
        exact List.suffix_append ..
      rw [List.concat_eq_append, if_pos rfl, if_pos hsuffix, hlength,
        show before ++ ['_'] ++ ['_'] ++ rest = before ++ ('_' :: '_' :: rest) by simp, cut_append]
      rcases List.eq_nil_or_concat before with rfl | ⟨before, e, rfl⟩
      · rfl
      · simp [startsWord, pure, Except.pure]
    · have hsuffix : ¬['_', '_'].isSuffixOf (before ++ [d] ++ ['_']) = true := by
        rw [List.isSuffixOf_iff_suffix]
        rintro ⟨earlier, he⟩
        exact hd ((ends_with_underscores before earlier d).mp he.symm).2
      have hname : isNameChar '_' = true := by decide
      rw [List.concat_eq_append, if_pos rfl, if_neg hsuffix]
      simp [startsWord, hd, hname, pure, Except.pure]
  · rw [if_neg hc]
    simp [startsWord, hc, pure, Except.pure]

theorem afterBlanks?_eq (text : List Char) : afterBlanks? text =
    if byteLength (dropBlanks text) = byteLength text then none else some (dropBlanks text) := by
  cases text with
  | nil => rfl
  | cons c text =>
    by_cases hc : isBlank c = true
    · obtain ⟨gap, he, -⟩ := exists_dropBlanks text
      have hle : byteLength (dropBlanks text) ≤ byteLength text := by
        conv_rhs => rw [he, byteLength_append]
        exact Nat.le_add_left ..
      have hpos := c.utf8Size_pos
      have hdrop : dropBlanks (c :: text) = dropBlanks text := by simp [dropBlanks, hc]
      rw [afterBlanks?, if_pos hc, hdrop, byteLength_cons, if_neg (by omega)]
    · have hdrop : dropBlanks (c :: text) = c :: text := by simp [dropBlanks, hc]
      rw [afterBlanks?, if_neg hc, hdrop, if_pos rfl]

theorem declaredNameAt?_eq (before rest : List Char) :
    declaredNameAt? (before ++ rest) (byteLength before) = .ok (declaredName? rest) := by
  rw [declaredNameAt?, cut_append, declaredName?, afterBlanks?_eq]
  simp only [bind, Except.bind]
  by_cases htrimmed : byteLength (dropBlanks rest) = byteLength rest
  · rw [if_pos htrimmed, if_pos htrimmed]
    rfl
  rw [if_neg htrimmed, if_neg htrimmed, Option.bind_some]
  cases hvoid : afterWord? "void".toList (dropBlanks rest) with
  | none => rfl
  | some text =>
    rw [Option.bind_some, afterBlanks?_eq]
    simp only
    by_cases htext : byteLength (dropBlanks text) = byteLength text
    · rw [if_pos htext, if_pos htext]
      rfl
    have hcut := cut_append ((dropBlanks text).takeWhile isNameChar)
      ((dropBlanks text).dropWhile isNameChar)
    rw [List.takeWhile_append_dropWhile] at hcut
    rw [if_neg htext, if_neg htext, Option.bind_some, hcut]
    simp only
    split_ifs <;> rfl

/-- By induction on the places of the word: no cut of the scan falls within a character or outside
of the text. -/
theorem scanFrom_eq (before text : List Char) :
    scanFrom (before ++ text) (byteLength before) = .ok (namesFrom before.reverse 0 text) := by
  induction before, text using occurrences_induction with
  | none before text hm =>
    have hfound := offset?_misses hm
    rw [List.append_nil] at hfound
    rw [scanFrom_of_none (cut_append before text) hfound, namesFrom_last before hm]
  | word before skipped after hm ih =>
    have hfound : offset? (skipped ++ ("kernel".toList ++ after)) = some (byteLength skipped) := by
      rw [offset?_misses hm, offset?_kernel]
      rfl
    have hstop : byteLength before + byteLength skipped + 6 =
        byteLength (before ++ skipped ++ "kernel".toList) := by
      rw [byteLength_append, byteLength_append]
      rfl
    have hstarts := startsWordAt_eq (before ++ skipped) ("kernel".toList ++ after)
    have hname := declaredNameAt?_eq (before ++ skipped ++ "kernel".toList) after
    rw [List.append_assoc _ "kernel".toList] at hname ih
    rw [scanFrom_of_some (cut_append before _) hfound, hstop, ← byteLength_append,
      ← List.append_assoc before, hstarts, ih, hname, namesFrom_next before hm, declaration]
    simp only [bind, Except.bind]
    split_ifs <;> rfl

/-- The names are those of the declarations of a text, in the order of their places and as often as
they are declared. The scan that cuts the text at byte offsets finds the same, and never cuts within
a character. -/
theorem names_declared (source : String) :
    (∃ places : List Nat, places.Pairwise (· < ·) ∧
      (∀ place, place ∈ places ↔ ∃ name, DeclaredAt source.toList place name) ∧
      List.Forall₂ (DeclaredAt source.toList) places (names source)) ∧
    (∀ place name name', DeclaredAt source.toList place name →
      DeclaredAt source.toList place name' → name = name') ∧
    scanFrom source.toList 0 = .ok (names source) := by
  refine ⟨?_, fun _ _ _ => DeclaredAt.unique, scanFrom_eq [] source.toList⟩
  obtain ⟨places, hsorted, hmem, hnames⟩ := namesFrom_places [] source.toList
  refine ⟨places, hsorted, fun place => (hmem place).trans ?_, hnames⟩
  exact and_iff_right (Nat.zero_le _)

example : names "__kernel void Relu(x); mykernel void f(); kernel  void\n Tanh (y)" =
    ["Relu", "Tanh"] := by decide +kernel

end Backprop.Declaration
