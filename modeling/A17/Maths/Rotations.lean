import A17.Lib.RotationQuaternion
import A17.Maths.AngleUtils

/-!
# `Rotations`

`rotations.cpp`, in exact arithmetic. The quaternion from NED to ENU is a half turn, so that its square is -1 and it
differs from its inverse in the sign only (`qNedToEnu_mul_self`). This is why it does not matter that rotations are
conjugated the other way round than points are (`enu_to_ned_consistent`).
-/

namespace A17.Maths.Rotations
open Quaternion RotationQuaternion

noncomputable section

def qPiX : ℍ[ℝ] := angleAxis Real.pi unitX
def qPi2Z : ℍ[ℝ] := angleAxis mPi2 unitZ
def qNedToEnu : ℍ[ℝ] := qPi2Z * qPiX
def qEnuToNed : ℍ[ℝ] := qNedToEnu⁻¹

def pointEnuToNed (enu : Fin 3 → ℝ) : Fin 3 → ℝ := transformVector qEnuToNed enu

def rotEnuToNed (enu : ℍ[ℝ]) : ℍ[ℝ] := qNedToEnu * enu * qEnuToNed

theorem normSq_qNedToEnu : normSq qNedToEnu = 1 :=
  normSq_mul_eq_one (normSq_angleAxis _ unitZ_sq) (normSq_angleAxis _ unitX_sq)

theorem qEnuToNed_eq_star : qEnuToNed = star qNedToEnu := by
  rw [qEnuToNed, inv_def, normSq_qNedToEnu, inv_one, one_smul]

/-- A half turn has no real part. -/
theorem qNedToEnu_re : qNedToEnu.re = 0 := by
  simp [qNedToEnu, qPi2Z, qPiX, unitX, unitZ]

theorem qEnuToNed_eq_neg : qEnuToNed = -qNedToEnu := by
  rw [qEnuToNed_eq_star, star_eq_neg]
  exact qNedToEnu_re

theorem qEnuToNed_mul_qNedToEnu : qEnuToNed * qNedToEnu = 1 := by
  rw [qEnuToNed_eq_star, star_mul_self, normSq_qNedToEnu, coe_one]

theorem qNedToEnu_mul_self : qNedToEnu * qNedToEnu = -1 := by
  have hmul := qEnuToNed_mul_qNedToEnu
  rw [qEnuToNed_eq_neg] at hmul
  exact neg_eq_iff_eq_neg.1 ((neg_mul _ _).symm.trans hmul)

theorem qEnuToNed_mul_self : qEnuToNed * qEnuToNed = -1 := by
  rw [qEnuToNed_eq_neg]
  exact (neg_mul_neg _ _).trans qNedToEnu_mul_self

theorem normSq_qEnuToNed : normSq qEnuToNed = 1 := by rw [qEnuToNed_eq_star, normSq_star, normSq_qNedToEnu]

theorem normSq_rotEnuToNed {q : ℍ[ℝ]} (h : normSq q = 1) : normSq (rotEnuToNed q) = 1 :=
  normSq_mul_eq_one (normSq_mul_eq_one normSq_qNedToEnu h) normSq_qEnuToNed

/-- The converted rotation of a converted frame. -/
theorem rotEnuToNed_mul_qEnuToNed (q : ℍ[ℝ]) : rotEnuToNed q * qEnuToNed = qEnuToNed * q := by
  rw [rotEnuToNed, qEnuToNed_eq_neg]
  exact half_turn_mul qNedToEnu_mul_self q

theorem rotEnuToNed_mul (p q : ℍ[ℝ]) : rotEnuToNed (p * q) = rotEnuToNed p * rotEnuToNed q :=
  calc qNedToEnu * (p * q) * qEnuToNed
      = qNedToEnu * p * 1 * q * qEnuToNed := by rw [mul_one, mul_assoc qNedToEnu p q]
    _ = qNedToEnu * p * qEnuToNed * (qNedToEnu * q * qEnuToNed) := by
        rw [← qEnuToNed_mul_qNedToEnu]
        simp only [mul_assoc]

theorem rotEnuToNed_rotEnuToNed (q : ℍ[ℝ]) : rotEnuToNed (rotEnuToNed q) = q :=
  calc qNedToEnu * rotEnuToNed q * qEnuToNed
      = qNedToEnu * qEnuToNed * q := by rw [mul_assoc, rotEnuToNed_mul_qEnuToNed, mul_assoc]
    _ = q := by rw [qEnuToNed_eq_star, self_mul_star, normSq_qNedToEnu, coe_one, one_mul]

theorem pointEnuToNed_pointEnuToNed (v : Fin 3 → ℝ) : pointEnuToNed (pointEnuToNed v) = v := by
  rw [pointEnuToNed, pointEnuToNed, ← transformVector_mul normSq_qEnuToNed normSq_qEnuToNed, qEnuToNed_mul_self]
  exact (transformVector_neg 1 v).trans (transformVector_one v)

theorem pointEnuToNed_transformVector {q : ℍ[ℝ]} (h : normSq q = 1) (v : Fin 3 → ℝ) :
    pointEnuToNed (transformVector q v) = transformVector (rotEnuToNed q) (pointEnuToNed v) :=
  calc transformVector qEnuToNed (transformVector q v)
      = transformVector (qEnuToNed * q) v := (transformVector_mul normSq_qEnuToNed h v).symm
    _ = transformVector (rotEnuToNed q * qEnuToNed) v := by rw [rotEnuToNed_mul_qEnuToNed]
    _ = transformVector (rotEnuToNed q) (transformVector qEnuToNed v) :=
        transformVector_mul (normSq_rotEnuToNed h) normSq_qEnuToNed v

/-- Points and rotations are converted consistently, and both conversions are their own inverse. -/
theorem enu_to_ned_consistent :
    (∀ (q : ℍ[ℝ]) (v : Fin 3 → ℝ), normSq q = 1 →
      pointEnuToNed (transformVector q v) = transformVector (rotEnuToNed q) (pointEnuToNed v)) ∧
    (∀ p q : ℍ[ℝ], rotEnuToNed (p * q) = rotEnuToNed p * rotEnuToNed q) ∧
    (∀ v : Fin 3 → ℝ, pointEnuToNed (pointEnuToNed v) = v) ∧ ∀ q : ℍ[ℝ], rotEnuToNed (rotEnuToNed q) = q :=
  ⟨fun _ v h => pointEnuToNed_transformVector h v, rotEnuToNed_mul, pointEnuToNed_pointEnuToNed,
    rotEnuToNed_rotEnuToNed⟩

theorem enu_to_ned_consistent_third :
    pointEnuToNed (transformVector ⟨1 / 2, 1 / 2, 1 / 2, 1 / 2⟩ ![1, 2, 3]) =
      transformVector (rotEnuToNed ⟨1 / 2, 1 / 2, 1 / 2, 1 / 2⟩) (pointEnuToNed ![1, 2, 3]) :=
  enu_to_ned_consistent.1 ⟨1 / 2, 1 / 2, 1 / 2, 1 / 2⟩ ![1, 2, 3] ((normSq_def' _).trans (by norm_num))

end

end A17.Maths.Rotations
