import Mathlib
import Backprop.Operator.Basic
import Backprop.Proofs.Kernel.Tiles

/-! A split shares its image out among its tiles. The operator counts the tiles, the kernels lay
them out in rows: every cell of the image lies in one tile. -/

namespace Backprop

variable {α : Type}

namespace Kernel

namespace Tiling

variable {t : Tiling} {d n s : Nat}

end Tiling

end Kernel

namespace Operator

open Kernel

variable {tileX tileY n : Nat} {a : Tensor}

end Operator

namespace Kernel

variable [Scalar α]

variable {tiles cells n : Nat} {t : Nat → Tiling} {o : Operands α} {dx dx' dy image out : Array α}

end Kernel

namespace Operator

open Kernel

variable [Scalar α] {tileX tileY : Nat}

end Operator

end Backprop
