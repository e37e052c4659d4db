import Mathlib.Algebra.Quaternion
import Mathlib.Analysis.SpecialFunctions.Complex.Arg
import Mathlib.LinearAlgebra.CrossProduct

/-!
# Quaternions as rotations

The quaternion of an angle and an axis, and the action of a quaternion on vectors by two cross products. A quaternion
of norm 1 acts by conjugation (`ofVec_transformVector`), and whole turns change no more than the sign
(`angleAxis_of_modEq`). `atan2` is the argument of a complex number.
-/

namespace RotationQuaternion
open Quaternion Matrix

section
variable {R : Type} [CommRing R]

def vec (q : ℍ[R]) : Fin 3 → R := ![q.imI, q.imJ, q.imK]

def transformVector (q : ℍ[R]) (v : Fin 3 → R) : Fin 3 → R :=
  let uv := crossProduct (vec q) v
  let uv := uv + uv
  v + q.re • uv + crossProduct (vec q) uv

/-- The components. -/
theorem transformVector_eq (q : ℍ[R]) (v : Fin 3 → R) :
    let uv₀ := q.imJ * v 2 - q.imK * v 1
    let uv₁ := q.imK * v 0 - q.imI * v 2
    let uv₂ := q.imI * v 1 - q.imJ * v 0
    transformVector q v = ![v 0 + q.re * (uv₀ + uv₀) + (q.imJ * (uv₂ + uv₂) - q.imK * (uv₁ + uv₁)),
      v 1 + q.re * (uv₁ + uv₁) + (q.imK * (uv₀ + uv₀) - q.imI * (uv₂ + uv₂)),
      v 2 + q.re * (uv₂ + uv₂) + (q.imI * (uv₁ + uv₁) - q.imJ * (uv₀ + uv₀))] := by
  intro uv₀ uv₁ uv₂
  ext i
  fin_cases i
  · rfl
  · rfl
  · rfl

def ofVec (v : Fin 3 → R) : ℍ[R] := ⟨0, v 0, v 1, v 2⟩

@[simp] theorem ofVec_re (v : Fin 3 → R) : (ofVec v).re = 0 := rfl
@[simp] theorem ofVec_imI (v : Fin 3 → R) : (ofVec v).imI = v 0 := rfl
@[simp] theorem ofVec_imJ (v : Fin 3 → R) : (ofVec v).imJ = v 1 := rfl
@[simp] theorem ofVec_imK (v : Fin 3 → R) : (ofVec v).imK = v 2 := rfl

theorem ofVec_injective : Function.Injective (ofVec : (Fin 3 → R) → ℍ[R]) := by
  intro v v' h
  ext i
  fin_cases i
  · simpa using congrArg (fun q => q.imI) h
  · simpa using congrArg (fun q => q.imJ) h
  · simpa using congrArg (fun q => q.imK) h

theorem ofVec_transformVector {q : ℍ[R]} (h : normSq q = 1) (v : Fin 3 → R) :
    ofVec (transformVector q v) = q * ofVec v * star q := by
  rw [normSq_def'] at h
  rw [transformVector_eq]
  ext
  · simp
    ring
  · simp
    linear_combination (-v 0) * h
  · simp
    linear_combination (-v 1) * h
  · simp
    linear_combination (-v 2) * h

theorem normSq_mul_eq_one {p q : ℍ[R]} (hp : normSq p = 1) (hq : normSq q = 1) : normSq (p * q) = 1 := by
  rw [map_mul, hp, hq, one_mul]

theorem transformVector_mul {p q : ℍ[R]} (hp : normSq p = 1) (hq : normSq q = 1) (v : Fin 3 → R) :
    transformVector (p * q) v = transformVector p (transformVector q v) := by
  refine ofVec_injective ?_
  rw [ofVec_transformVector hp, ofVec_transformVector hq, ofVec_transformVector (normSq_mul_eq_one hp hq), star_mul]
  simp only [mul_assoc]

theorem transformVector_one (v : Fin 3 → R) : transformVector 1 v = v := by
  refine ofVec_injective ?_
  rw [ofVec_transformVector (map_one normSq), star_one, one_mul, mul_one]

theorem transformVector_neg (q : ℍ[R]) (v : Fin 3 → R) : transformVector (-q) v = transformVector q v := by
  simp only [transformVector_eq, re_neg, imI_neg, imJ_neg, imK_neg]
  ring_nf

end

/-- Equal up to the sign, in a product. -/
theorem mul_eq_or_eq_neg {R : Type} [Ring R] {a a' b b' : R} (ha : a = a' ∨ a = -a') (hb : b = b' ∨ b = -b') :
    a * b = a' * b' ∨ a * b = -(a' * b') := by
  rcases ha with rfl | rfl <;> rcases hb with rfl | rfl
  · exact .inl rfl
  · exact .inr (mul_neg _ _)
  · exact .inr (neg_mul _ _)
  · exact .inl (neg_mul_neg _ _)

/-- What is conjugated by a root of -1. -/
theorem half_turn_mul {R : Type} [Ring R] {n : R} (h : n * n = -1) (q : R) : n * q * -n * -n = -n * q := by
  rw [mul_assoc (n * q), neg_mul_neg, h, mul_neg_one, neg_mul]

/-! ### Angles -/

noncomputable def angleAxis (angle : ℝ) (axis : Fin 3 → ℝ) : ℍ[ℝ] :=
  let ha := 0.5 * angle
  ⟨Real.cos ha, Real.sin ha * axis 0, Real.sin ha * axis 1, Real.sin ha * axis 2⟩

def unitX : Fin 3 → ℝ := ![1, 0, 0]
def unitY : Fin 3 → ℝ := ![0, 1, 0]
def unitZ : Fin 3 → ℝ := ![0, 0, 1]

theorem unitX_sq : unitX 0 ^ 2 + unitX 1 ^ 2 + unitX 2 ^ 2 = 1 := by simp [unitX]

theorem unitZ_sq : unitZ 0 ^ 2 + unitZ 1 ^ 2 + unitZ 2 ^ 2 = 1 := by simp [unitZ]

section
variable (angle : ℝ) (axis : Fin 3 → ℝ)

theorem angleAxis_eq : angleAxis angle axis = ⟨Real.cos (angle / 2), Real.sin (angle / 2) * axis 0,
    Real.sin (angle / 2) * axis 1, Real.sin (angle / 2) * axis 2⟩ := by
  have hhalf : 0.5 * angle = angle / 2 := by ring
  rw [angleAxis, hhalf]

@[simp] theorem angleAxis_re : (angleAxis angle axis).re = Real.cos (angle / 2) := by rw [angleAxis_eq]
@[simp] theorem angleAxis_imI : (angleAxis angle axis).imI = Real.sin (angle / 2) * axis 0 := by rw [angleAxis_eq]
@[simp] theorem angleAxis_imJ : (angleAxis angle axis).imJ = Real.sin (angle / 2) * axis 1 := by rw [angleAxis_eq]
@[simp] theorem angleAxis_imK : (angleAxis angle axis).imK = Real.sin (angle / 2) * axis 2 := by rw [angleAxis_eq]

section
variable (q : ℍ[ℝ])

theorem re_unitZ_mul :
    (angleAxis angle unitZ * q).re = Real.cos (angle / 2) * q.re - Real.sin (angle / 2) * q.imK := by
  simp [unitZ]

theorem imI_unitZ_mul :
    (angleAxis angle unitZ * q).imI = Real.cos (angle / 2) * q.imI - Real.sin (angle / 2) * q.imJ := by
  simp [unitZ]

theorem imJ_unitZ_mul :
    (angleAxis angle unitZ * q).imJ = Real.cos (angle / 2) * q.imJ + Real.sin (angle / 2) * q.imI := by
  simp [unitZ]

theorem imK_unitZ_mul :
    (angleAxis angle unitZ * q).imK = Real.cos (angle / 2) * q.imK + Real.sin (angle / 2) * q.re := by
  simp [unitZ]

theorem re_mul_unitX :
    (q * angleAxis angle unitX).re = q.re * Real.cos (angle / 2) - q.imI * Real.sin (angle / 2) := by
  simp [unitX]

theorem imI_mul_unitX :
    (q * angleAxis angle unitX).imI = q.re * Real.sin (angle / 2) + q.imI * Real.cos (angle / 2) := by
  simp [unitX]

theorem imJ_mul_unitX :
    (q * angleAxis angle unitX).imJ = q.imJ * Real.cos (angle / 2) + q.imK * Real.sin (angle / 2) := by
  simp [unitX]

theorem imK_mul_unitX :
    (q * angleAxis angle unitX).imK = q.imK * Real.cos (angle / 2) - q.imJ * Real.sin (angle / 2) := by
  simp [unitX]
  ring

end

theorem normSq_angleAxis {axis : Fin 3 → ℝ} (h : axis 0 ^ 2 + axis 1 ^ 2 + axis 2 ^ 2 = 1) :
    normSq (angleAxis angle axis) = 1 := by
  rw [normSq_def']
  simp only [angleAxis_re, angleAxis_imI, angleAxis_imJ, angleAxis_imK]
  linear_combination Real.sin_sq_add_cos_sq (angle / 2) + Real.sin (angle / 2) ^ 2 * h

theorem star_angleAxis : star (angleAxis angle axis) = angleAxis (-angle) axis := by
  have hhalf : -angle / 2 = -(angle / 2) := by ring
  ext <;> simp [hhalf]

theorem angleAxis_mul_neg {axis : Fin 3 → ℝ} (h : axis 0 ^ 2 + axis 1 ^ 2 + axis 2 ^ 2 = 1) :
    angleAxis angle axis * angleAxis (-angle) axis = 1 := by
  rw [← star_angleAxis, self_mul_star, normSq_angleAxis angle h, coe_one]

theorem angleAxis_neg_mul {axis : Fin 3 → ℝ} (h : axis 0 ^ 2 + axis 1 ^ 2 + axis 2 ^ 2 = 1) :
    angleAxis (-angle) axis * angleAxis angle axis = 1 := by
  rw [← star_angleAxis, star_mul_self, normSq_angleAxis angle h, coe_one]

theorem angleAxis_of_modEq {angle angle' : ℝ} (h : angle ≡ angle' [PMOD 2 * Real.pi]) :
    angleAxis angle axis = angleAxis angle' axis ∨ angleAxis angle axis = -angleAxis angle' axis := by
  obtain ⟨n, hn⟩ := AddCommGroup.modEq_iff_zsmul.1 h.symm
  have hhalf : angle / 2 = angle' / 2 + n * Real.pi := by
    rw [zsmul_eq_mul] at hn
    linear_combination -hn / 2
  rcases Int.even_or_odd n with heven | hodd
  · left
    ext <;> simp [hhalf, Real.cos_add_int_mul_pi, Real.sin_add_int_mul_pi, heven.neg_one_zpow]
  · right
    ext <;> simp [hhalf, Real.cos_add_int_mul_pi, Real.sin_add_int_mul_pi, hodd.neg_one_zpow]

end

noncomputable def atan2 (y x : ℝ) : ℝ := Complex.arg ⟨x, y⟩

theorem mul_cos_atan2 {y x r : ℝ} (hr : 0 ≤ r) (h : y ^ 2 + x ^ 2 = r ^ 2) :
    r * Real.cos (atan2 y x) = x ∧ r * Real.sin (atan2 y x) = y := by
  have hnorm : ‖(⟨x, y⟩ : ℂ)‖ = r := by
    rw [Complex.norm_eq_sqrt_sq_add_sq, add_comm, h, Real.sqrt_sq hr]
  rw [← hnorm]
  exact ⟨Complex.norm_mul_cos_arg _, Complex.norm_mul_sin_arg _⟩

end RotationQuaternion
