/-! Tables of characters as ranges of their codes. -/

namespace Backprop

/-- The codes from the first number to the second. -/
abbrev CodeRange := Nat × Nat

namespace CodeRange

def holds (r : CodeRange) (c : Char) : Bool := r.1 ≤ c.toNat && c.toNat ≤ r.2

def anyHolds (rs : List CodeRange) (c : Char) : Bool := rs.any (·.holds c)

end CodeRange

end Backprop
