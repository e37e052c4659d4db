import Mathlib.Algebra.Order.Field.Basic
import Mathlib.Data.Fintype.Pi
import Mathlib.Tactic.FinCases
import Mathlib.Tactic.Linarith
import Mathlib.Tactic.Ring
import A17.Lib.GridLoops

/-!
# Trilinear interpolation

Eight values at the corners of a cube, blended along one axis after the other. The blend is between the least and the
greatest of the values, and along each axis it is a straight line.
-/

namespace Trilinear
open GridLoops
variable {K : Type} [Field K]

def blend (t a b : K) : K := (1 - t) * a + t * b

/-- The blend of the corners at `d`, along the first axis, then the second, then the third. -/
def value (corner : Fin 2 → Fin 2 → Fin 2 → K) (d : Fin 3 → K) : K :=
  blend (d 2)
    (blend (d 1) (blend (d 0) (corner 0 0 0) (corner 1 0 0)) (blend (d 0) (corner 0 1 0) (corner 1 1 0)))
    (blend (d 1) (blend (d 0) (corner 0 0 1) (corner 1 0 1)) (blend (d 0) (corner 0 1 1) (corner 1 1 1)))

/-- The slope along an axis. -/
def axisSlope (corner : Fin 2 → Fin 2 → Fin 2 → K) (d : Fin 3 → K) : Fin 3 → K
  | 0 => blend (d 2) (blend (d 1) (corner 1 0 0 - corner 0 0 0) (corner 1 1 0 - corner 0 1 0))
      (blend (d 1) (corner 1 0 1 - corner 0 0 1) (corner 1 1 1 - corner 0 1 1))
  | 1 => blend (d 2) (blend (d 0) (corner 0 1 0) (corner 1 1 0) - blend (d 0) (corner 0 0 0) (corner 1 0 0))
      (blend (d 0) (corner 0 1 1) (corner 1 1 1) - blend (d 0) (corner 0 0 1) (corner 1 0 1))
  | 2 => blend (d 1) (blend (d 0) (corner 0 0 1) (corner 1 0 1)) (blend (d 0) (corner 0 1 1) (corner 1 1 1)) -
      blend (d 1) (blend (d 0) (corner 0 0 0) (corner 1 0 0)) (blend (d 0) (corner 0 1 0) (corner 1 1 0))

variable {corner : Fin 2 → Fin 2 → Fin 2 → K} {d : Fin 3 → K}

theorem value_update (i : Fin 3) (t : K) :
    value corner (Function.update d i (d i + t)) = value corner d + t * axisSlope corner d i := by
  fin_cases i <;> simp [value, axisSlope, blend] <;> ring

theorem value_zero : value corner (fun _ => 0) = corner 0 0 0 := by simp [value, blend]

section
variable [LinearOrder K] [IsStrictOrderedRing K] {lo hi t a b : K}

theorem blend_mem (ht : 0 ≤ t ∧ t ≤ 1) (ha : lo ≤ a ∧ a ≤ hi) (hb : lo ≤ b ∧ b ≤ hi) :
    lo ≤ blend t a b ∧ blend t a b ≤ hi := by
  have ht' : 0 ≤ 1 - t := sub_nonneg.2 ht.2
  unfold blend
  constructor
  · linarith [mul_le_mul_of_nonneg_left ha.1 ht', mul_le_mul_of_nonneg_left hb.1 ht.1]
  · linarith [mul_le_mul_of_nonneg_left ha.2 ht', mul_le_mul_of_nonneg_left hb.2 ht.1]

theorem value_mem (hd : ∀ i, 0 ≤ d i ∧ d i ≤ 1) (hcorner : ∀ x y z, lo ≤ corner x y z ∧ corner x y z ≤ hi) :
    lo ≤ value corner d ∧ value corner d ≤ hi := by
  have hface : ∀ z, lo ≤ blend (d 1) (blend (d 0) (corner 0 0 z) (corner 1 0 z)) (blend (d 0) (corner 0 1 z)
      (corner 1 1 z)) ∧ blend (d 1) (blend (d 0) (corner 0 0 z) (corner 1 0 z)) (blend (d 0) (corner 0 1 z)
      (corner 1 1 z)) ≤ hi := by
    intro z
    exact blend_mem (hd 1) (blend_mem (hd 0) (hcorner ..) (hcorner ..)) (blend_mem (hd 0) (hcorner ..) (hcorner ..))
  exact blend_mem (hd 2) (hface 0) (hface 1)

end
end Trilinear
