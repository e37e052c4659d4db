import Mathlib.Algebra.Order.Floor.Ring

/-!
# Truncation

The conversion of a real number to an integer that goes towards zero.
-/

namespace Truncation
variable {K : Type} [Ring K] [LinearOrder K] [FloorRing K]

def toInt (x : K) : Int := if 0 ≤ x then ⌊x⌋ else ⌈x⌉

end Truncation
