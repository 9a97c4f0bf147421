import Mathlib
import Backprop.Kernel.Catalogue
import Backprop.Kernel.Programs
import Backprop.Proofs.Call
import Backprop.Proofs.Kernel.Declaration

/-! The programs for a graphics device declare every kernel that the host has, so a registry of all
of them knows every kernel by its name. -/

namespace Backprop

variable {name source line : String} {lines : List String}

/-! ### Registries -/

theorem Declaration.mem_names {place : Nat} (h : DeclaredAt source.toList place name) :
    name ∈ names source := by
  obtain ⟨places, -, hplaces, hnames⟩ := namesFrom_places [] source.toList
  obtain ⟨i, hi⟩ := List.getElem?_of_mem ((hplaces place).mpr ⟨Nat.zero_le _, name, h⟩)
  obtain ⟨name', hname, hdeclared⟩ := forall₂_getElem? hnames hi
  rw [h.unique hdeclared]
  exact List.mem_of_getElem? hname

namespace Registry

variable {r : Registry} {key : String}

theorem contains_iff : r.contains name = true ↔ ∃ entry ∈ r.entries, name = entry.1 := by
  simp only [contains, source?, List.lookup_isSome_iff, beq_iff_eq]

theorem contains_insert :
    (r.insert key source).contains name = true ↔ name = key ∨ r.contains name = true := by
  simp only [contains_iff, insert, List.mem_append, List.mem_filter, List.mem_singleton]
  constructor
  · rintro ⟨entry, ⟨h, -⟩ | rfl, rfl⟩
    · exact .inr ⟨entry, h, rfl⟩
    · exact .inl rfl
  · rintro (rfl | ⟨entry, h, rfl⟩)
    · exact ⟨_, .inr rfl, rfl⟩
    · by_cases hkey : entry.1 = key
      · exact ⟨_, .inr rfl, hkey⟩
      · exact ⟨entry, .inl ⟨h, by simpa using hkey⟩, rfl⟩

theorem contains_insertAll {l : List String} :
    (insertAll source r l).1.contains name = true ↔ name ∈ l ∨ r.contains name = true := by
  induction l generalizing r with
  | nil => simp [insertAll]
  | cons key l ih =>
    rw [insertAll, ih, contains_insert, List.mem_cons, or_left_comm, or_assoc]

theorem contains_foldl {l : List (String × String)} :
    (l.foldl (fun r s => (r.addSource s.2).1) r).contains name = true ↔
      (∃ s ∈ l, name ∈ Declaration.names s.2) ∨ r.contains name = true := by
  induction l generalizing r with
  | nil => simp
  | cons s l ih =>
    rw [List.foldl_cons, ih, addSource, contains_insertAll]
    simp only [List.mem_cons, exists_eq_or_imp]
    rw [or_left_comm, or_assoc]

end Registry

/-! ### Programs -/

namespace Programs

def Heads (name line : String) : Prop :=
  ∃ rest, line.toList = "kernel void ".toList ++ name.toList ++ '(' :: rest

theorem toList_text (lines : List String) :
    (text lines).toList = lines.flatMap fun line => line.toList ++ ['\n'] := by
  rw [text, String.toList_join, List.flatMap_map]
  simp only [String.toList_append]
  rfl

theorem fresh_lines (lines : List String) :
    Declaration.Fresh (lines.flatMap fun line => line.toList ++ ['\n']) := by
  rcases List.eq_nil_or_concat lines with rfl | ⟨lines, line, rfl⟩
  · simp [Declaration.Fresh]
  · rw [List.concat_eq_append, List.flatMap_append, List.flatMap_singleton, ← List.append_assoc,
      Declaration.fresh_append]
    decide

theorem Heads.mem_names (h : Heads name line) (hline : line ∈ lines) (nonempty : name.toList ≠ [])
    (chars : ∀ c ∈ name.toList, Declaration.isNameChar c = true) :
    name ∈ Declaration.names (text lines) := by
  obtain ⟨rest, hrest⟩ := h
  obtain ⟨earlier, later, rfl⟩ := List.append_of_mem hline
  have hword : "kernel void ".toList = "kernel".toList ++ ([' '] ++ "void".toList ++ [' ']) := by
    decide +kernel
  have hblank : isBlank ' ' = true := by decide
  have htext : (text (earlier ++ line :: later)).toList =
      (earlier.flatMap fun line => line.toList ++ ['\n']) ++ "kernel".toList ++
        ([' '] ++ "void".toList ++ [' '] ++ name.toList ++ [] ++
          '(' :: (rest ++ '\n' :: later.flatMap fun line => line.toList ++ ['\n'])) := by
    rw [toList_text, List.flatMap_append, List.flatMap_cons, hrest, hword]
    simp only [List.append_assoc, List.cons_append, List.nil_append]
  exact Declaration.mem_names ⟨_, _, htext, rfl, .inl (fresh_lines earlier), [' '], [' '], [], _,
    rfl, List.cons_ne_nil _ _, List.cons_ne_nil _ _, nonempty, by simp [hblank], chars⟩

def heading : HostKernel → List String × Nat
  | .copy => (elementwise, 3)
  | .copyAdd => (elementwise, 12)
  | .add => (elementwise, 21)
  | .elementwiseProduct => (elementwise, 31)
  | .elementwiseProductAdd => (elementwise, 42)
  | .subtractFromConst => (elementwise, 52)
  | .subtractFromConstGrad => (elementwise, 62)
  | .addToMatrix => (elementwise, 71)
  | .addToMatrixGrad => (elementwise, 83)
  | .addToImage => (elementwise, 97)
  | .addToImageGrad => (elementwise, 110)
  | .splitData => (elementwise, 144)
  | .splitDataGrad => (elementwise, 162)
  | .appendId => (elementwise, 183)
  | .relu => (activation, 3)
  | .reluGrad => (activation, 13)
  | .sigmoid => (activation, 23)
  | .sigmoidGrad => (activation, 33)
  | .tanh => (activation, 43)
  | .tanhGrad => (activation, 52)
  | .matrixProduct => (matrixProduct, 17)
  | .matrixProductAdd => (matrixProduct, 28)
  | .transpose => (matrixProduct, 40)
  | .softmax => (classification, 12)
  | .softmaxGrad => (classification, 36)
  | .meanSquaredError => (classification, 54)
  | .meanSquaredErrorGrad => (classification, 70)
  | .crossEntropy => (classification, 81)
  | .crossEntropyGrad => (classification, 100)
  | .classificationAccuracy => (classification, 114)
  | .convolution => (convolution, 12)
  | .convolutionAdd => (convolution, 47)
  | .convolutionWeightGrad => (convolution, 85)
  | .rotateAndReorder => (convolution, 119)
  | .maxPooling => (pooling, 34)
  | .maxPoolingGrad => (pooling, 53)
  | .gradientDescent => (descent, 3)
  | .adam => (descent, 14)

theorem heading_heads (k : HostKernel) :
    ∃ line, (heading k).1[(heading k).2]? = some line ∧ Heads k.name line := by
  cases k <;> exact ⟨_, rfl, _, String.toList_ofList⟩

theorem heading_family (k : HostKernel) : text (heading k).1 ∈ families.map (·.2) := by
  cases k <;> simp [families, heading]

theorem name_chars (k : HostKernel) :
    k.name.toList ≠ [] ∧ ∀ c ∈ k.name.toList, Declaration.isNameChar c = true := by
  obtain ⟨chars, hname, hne, hchars⟩ : ∃ chars, k.name = String.ofList chars ∧ chars ≠ [] ∧
      chars.all Declaration.isNameChar = true := by
    cases k <;> exact ⟨_, rfl, List.cons_ne_nil _ _, rfl⟩
  rw [hname, String.toList_ofList]
  exact ⟨hne, List.all_eq_true.mp hchars⟩

/-- The programs declare all kernels of the host. -/
theorem registry_contains (k : HostKernel) : registry.contains k.name = true := by
  obtain ⟨line, hline, hheads⟩ := heading_heads k
  obtain ⟨family, hfamily, hprogram⟩ := List.mem_map.mp (heading_family k)
  refine Registry.contains_foldl.mpr (.inl ⟨family, hfamily, ?_⟩)
  rw [hprogram]
  exact hheads.mem_names (List.mem_of_getElem? hline) (name_chars k).1 (name_chars k).2

end Programs

end Backprop
