/-! Work sizes of a kernel launch. -/

namespace Backprop

structure Axes where
  x : Nat
  y : Nat
  z : Nat
deriving DecidableEq, Repr, Inhabited

namespace Axes

def toList (a : Axes) : List Nat := [a.x, a.y, a.z]

instance : ToString Axes := ⟨fun a => s!"[{a.x}, {a.y}, {a.z}]"⟩

end Axes

/-- Work items along each axis, and how many of them form one group. -/
structure Launch where
  global : Axes
  group : Axes
deriving DecidableEq, Repr, Inhabited

namespace Launch

/-- The least multiple of the group size that covers `total`, with at least one group. -/
def roundUp (total group : Nat) : Nat :=
  let group := max group 1
  (max total 1 + group - 1) / group * group

def oneAxis (total group : Nat) : Launch :=
  ⟨⟨roundUp total group, 1, 1⟩, ⟨max group 1, 1, 1⟩⟩

def twoAxes (width height groupX groupY : Nat) : Launch :=
  ⟨⟨roundUp width groupX, roundUp height groupY, 1⟩, ⟨max groupX 1, max groupY 1, 1⟩⟩

def threeAxes (width height depth groupX groupY groupZ : Nat) : Launch :=
  ⟨⟨roundUp width groupX, roundUp height groupY, roundUp depth groupZ⟩,
    ⟨max groupX 1, max groupY 1, max groupZ 1⟩⟩

def elementwise (n : Nat) : Launch := oneAxis n 64

def tiled (width height : Nat) : Launch := twoAxes width height 8 8

def planes (width height depth : Nat) : Launch := threeAxes width height depth 8 8 1

def single : Launch := oneAxis 1 1

/-- Groups along each axis, where every group has at least one work item. -/
def groups? (l : Launch) : Option Axes :=
  if l.group.x = 0 ∨ l.group.y = 0 ∨ l.group.z = 0 then none
  else some ⟨l.global.x / l.group.x, l.global.y / l.group.y, l.global.z / l.group.z⟩

/-- Each axis is a whole number of groups. -/
def IsWhole (l : Launch) : Prop :=
  ∀ axis ∈ l.global.toList.zip l.group.toList, axis.2 ≠ 0 ∧ axis.1 % axis.2 = 0

instance (l : Launch) : Decidable l.IsWhole := by unfold IsWhole; infer_instance

end Launch

end Backprop
