import Backprop.Kernel.Declaration

/-! Which program text declares which kernel. -/

namespace Backprop

structure Registry where
  entries : List (String × String) := []
deriving Inhabited

namespace Registry

def source? (r : Registry) (name : String) : Option String := r.entries.lookup name

def contains (r : Registry) (name : String) : Bool := (r.source? name).isSome

def size (r : Registry) : Nat := r.entries.length

/-- The newest text of a name counts. -/
def insert (r : Registry) (name source : String) : Registry :=
  ⟨r.entries.filter (·.1 != name) ++ [(name, source)]⟩

def names (r : Registry) : List String :=
  (r.entries.map (·.1)).mergeSort fun a b => decide (a ≤ b)

/-- Registers `source` under each name, and collects the names that had a text already. -/
def insertAll (source : String) : Registry → List String → Registry × List String
  | r, [] => (r, [])
  | r, name :: rest =>
    let (final, replaced) := insertAll source (r.insert name source) rest
    (final, if r.contains name then name :: replaced else replaced)

def addSource (r : Registry) (source : String) : Registry × List String :=
  r.insertAll source (Declaration.names source)

/-- What is logged when a name is taken over. -/
def replacedLine (name : String) : String :=
  s!"kernel `{name}` registered twice, keeping the newest source"

end Registry

end Backprop
