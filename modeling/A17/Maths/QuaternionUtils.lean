import A17.Lib.RotationQuaternion
import A17.Maths.AngleUtils

/-!
# `quaternion_utils.h`

In exact arithmetic. `EulerToQuaternion` of the angles of a quaternion is the quaternion or its negative, unless the
pitch is rounded to a right angle that it is not (`quaternion_round_trip`). Away from the right angles the yaw and the
roll are taken off the quaternion, and what is left turns about the y axis only (`eq_angleAxis_unitY`).
-/

namespace A17.Maths
open Quaternion RotationQuaternion

noncomputable section

def siny (q : ℍ[ℝ]) : ℝ := 2.0 * (q.re * q.imK + q.imI * q.imJ)
def cosy (q : ℍ[ℝ]) : ℝ := 1 - 2.0 * (q.imJ * q.imJ + q.imK * q.imK)
def sinr (q : ℍ[ℝ]) : ℝ := 2.0 * (q.re * q.imI + q.imJ * q.imK)
def cosr (q : ℍ[ℝ]) : ℝ := 1 - 2.0 * (q.imI * q.imI + q.imJ * q.imJ)
def sinp (q : ℍ[ℝ]) : ℝ := 2.0 * (q.re * q.imJ - q.imI * q.imK)

def yawFromQuaternion (q : ℍ[ℝ]) : ℝ := atan2 (siny q) (cosy q)

def rollFromQuaternion (q : ℍ[ℝ]) : ℝ := atan2 (sinr q) (cosr q)

def kPrecision : ℝ := 1e-10

def pitchFromQuaternion (q : ℍ[ℝ]) : ℝ :=
  if sinp q ≥ 1 - kPrecision then mPi2
  else if sinp q ≤ -1 + kPrecision then -mPi2
  else Real.arcsin (sinp q)

structure EulerAngles where
  roll : ℝ
  pitch : ℝ
  yaw : ℝ

/-- `QuaternionToEuler`, before the angles are wrapped. -/
def eulerAngles (q : ℍ[ℝ]) : EulerAngles :=
  let pitch := pitchFromQuaternion q
  if pitch = mPi2 ∨ pitch = -mPi2 then
    let sign : ℝ := if 0 ≤ pitch then 1 else -1
    ⟨0, pitch, sign * -2.0 * atan2 q.imI q.re⟩
  else ⟨rollFromQuaternion q, pitch, yawFromQuaternion q⟩

def quaternionToEuler (q : ℍ[ℝ]) : EulerAngles :=
  let euler := eulerAngles q
  ⟨wrapToPi euler.roll, wrapToPi euler.pitch, wrapToPi euler.yaw⟩

def eulerToQuaternion (euler : EulerAngles) : ℍ[ℝ] :=
  angleAxis euler.yaw unitZ * angleAxis euler.pitch unitY * angleAxis euler.roll unitX

/-! ### Taking off a yaw and a roll -/

/-- The cosine of the pitch, which is positive, times those of the yaw and the roll are the values in `q`. -/
structure HasAngles (q : ℍ[ℝ]) (euler : EulerAngles) : Prop where
  pos : 0 < Real.cos euler.pitch
  sinp : sinp q = Real.sin euler.pitch
  cosy : Real.cos euler.pitch * Real.cos euler.yaw = cosy q
  siny : Real.cos euler.pitch * Real.sin euler.yaw = siny q
  cosr : Real.cos euler.pitch * Real.cos euler.roll = cosr q
  sinr : Real.cos euler.pitch * Real.sin euler.roll = sinr q

section
variable (q : ℍ[ℝ])

theorem siny_eq : siny q = 2 * (q.re * q.imK + q.imI * q.imJ) := by norm_num [siny]

theorem sinr_eq : sinr q = 2 * (q.re * q.imI + q.imJ * q.imK) := by norm_num [sinr]

theorem sinp_eq : sinp q = 2 * (q.re * q.imJ - q.imI * q.imK) := by norm_num [sinp]

theorem cosy_eq : cosy q = 1 - 2 * (q.imJ * q.imJ + q.imK * q.imK) := by norm_num [cosy]

theorem cosr_eq : cosr q = 1 - 2 * (q.imI * q.imI + q.imJ * q.imJ) := by norm_num [cosr]

end

theorem cos_eq_half (angle : ℝ) : Real.cos angle = Real.cos (angle / 2) ^ 2 - Real.sin (angle / 2) ^ 2 := by
  rw [← Real.cos_two_mul', mul_div_cancel₀ angle two_ne_zero]

theorem sin_eq_half (angle : ℝ) : Real.sin angle = 2 * Real.sin (angle / 2) * Real.cos (angle / 2) := by
  rw [← Real.sin_two_mul, mul_div_cancel₀ angle two_ne_zero]

theorem sinp_yaw (angle : ℝ) (q : ℍ[ℝ]) : sinp (angleAxis angle unitZ * q) = sinp q := by
  simp only [sinp_eq, re_unitZ_mul, imI_unitZ_mul, imJ_unitZ_mul, imK_unitZ_mul]
  linear_combination 2 * (q.re * q.imJ - q.imI * q.imK) * Real.sin_sq_add_cos_sq (angle / 2)

theorem cosr_yaw (angle : ℝ) (q : ℍ[ℝ]) : cosr (angleAxis angle unitZ * q) = cosr q := by
  simp only [cosr_eq, imI_unitZ_mul, imJ_unitZ_mul]
  linear_combination -2 * (q.imI * q.imI + q.imJ * q.imJ) * Real.sin_sq_add_cos_sq (angle / 2)

theorem sinp_roll (angle : ℝ) (q : ℍ[ℝ]) : sinp (q * angleAxis angle unitX) = sinp q := by
  simp only [sinp_eq, re_mul_unitX, imI_mul_unitX, imJ_mul_unitX, imK_mul_unitX]
  linear_combination 2 * (q.re * q.imJ - q.imI * q.imK) * Real.sin_sq_add_cos_sq (angle / 2)

theorem siny_roll (angle : ℝ) (q : ℍ[ℝ]) : siny (q * angleAxis angle unitX) = siny q := by
  simp only [siny_eq, re_mul_unitX, imI_mul_unitX, imJ_mul_unitX, imK_mul_unitX]
  linear_combination 2 * (q.re * q.imK + q.imI * q.imJ) * Real.sin_sq_add_cos_sq (angle / 2)

theorem cosy_roll (angle : ℝ) (q : ℍ[ℝ]) : cosy (q * angleAxis angle unitX) = cosy q := by
  simp only [cosy_eq, imJ_mul_unitX, imK_mul_unitX]
  linear_combination -2 * (q.imJ * q.imJ + q.imK * q.imK) * Real.sin_sq_add_cos_sq (angle / 2)

section
variable {q : ℍ[ℝ]} (h : normSq q = 1)
include h

theorem cosy_of_normSq : cosy q = q.re ^ 2 + q.imI ^ 2 - q.imJ ^ 2 - q.imK ^ 2 := by
  rw [normSq_def'] at h
  rw [cosy_eq]
  linear_combination -h

theorem cosr_of_normSq : cosr q = q.re ^ 2 - q.imI ^ 2 - q.imJ ^ 2 + q.imK ^ 2 := by
  rw [normSq_def'] at h
  rw [cosr_eq]
  linear_combination -h

theorem siny_sq_add_cosy_sq : siny q ^ 2 + cosy q ^ 2 = 1 - sinp q ^ 2 := by
  rw [cosy_of_normSq h, siny_eq, sinp_eq]
  rw [normSq_def'] at h
  linear_combination (q.re ^ 2 + q.imI ^ 2 + q.imJ ^ 2 + q.imK ^ 2 + 1) * h

theorem sinr_sq_add_cosr_sq : sinr q ^ 2 + cosr q ^ 2 = 1 - sinp q ^ 2 := by
  rw [cosr_of_normSq h, sinr_eq, sinp_eq]
  rw [normSq_def'] at h
  linear_combination (q.re ^ 2 + q.imI ^ 2 + q.imJ ^ 2 + q.imK ^ 2 + 1) * h

theorem siny_yaw (angle : ℝ) :
    siny (angleAxis angle unitZ * q) = Real.cos angle * siny q + Real.sin angle * cosy q := by
  rw [cosy_of_normSq h, cos_eq_half angle, sin_eq_half angle]
  simp only [siny_eq, re_unitZ_mul, imI_unitZ_mul, imJ_unitZ_mul, imK_unitZ_mul]
  ring

theorem cosy_yaw (angle : ℝ) :
    cosy (angleAxis angle unitZ * q) = Real.cos angle * cosy q - Real.sin angle * siny q := by
  rw [cosy_of_normSq (normSq_mul_eq_one (normSq_angleAxis angle unitZ_sq) h), cosy_of_normSq h, cos_eq_half angle,
    sin_eq_half angle]
  simp only [siny_eq, re_unitZ_mul, imI_unitZ_mul, imJ_unitZ_mul, imK_unitZ_mul]
  ring

theorem cosr_roll (angle : ℝ) :
    cosr (q * angleAxis angle unitX) = Real.cos angle * cosr q - Real.sin angle * sinr q := by
  rw [cosr_of_normSq (normSq_mul_eq_one h (normSq_angleAxis angle unitX_sq)), cosr_of_normSq h, cos_eq_half angle,
    sin_eq_half angle]
  simp only [sinr_eq, re_mul_unitX, imI_mul_unitX, imJ_mul_unitX, imK_mul_unitX]
  ring

/-- Without yaw and roll only a pitch is left. -/
theorem imI_imK_eq_zero (hne : cosy q ≠ 0) (hsiny : siny q = 0) (hcosr : cosr q = cosy q) : q.imI = 0 ∧ q.imK = 0 := by
  rw [cosy_of_normSq h] at hne hcosr
  rw [cosr_of_normSq h] at hcosr
  rw [siny_eq] at hsiny
  have hsq : q.imK ^ 2 = q.imI ^ 2 := by linear_combination hcosr / 2
  have hI : q.imI = 0 := by
    by_contra hI
    refine hne ?_
    rcases sq_eq_sq_iff_eq_or_eq_neg.1 hsq with hK | hK
    · have hsum : q.re + q.imJ = 0 := by
        refine (mul_eq_zero.1 ?_).resolve_left hI
        linear_combination hsiny / 2 - q.re * hK
      linear_combination (q.re - q.imJ) * hsum - hsq
    · have hdiff : q.imJ - q.re = 0 := by
        refine (mul_eq_zero.1 ?_).resolve_left hI
        linear_combination hsiny / 2 - q.re * hK
      linear_combination -(q.re + q.imJ) * hdiff - hsq
  refine ⟨hI, ?_⟩
  rw [hI] at hsq
  simpa using hsq

theorem eq_angleAxis_unitY {pitch : ℝ} (hpos : 0 < Real.cos pitch) (hsiny : siny q = 0)
    (hcosy : cosy q = Real.cos pitch) (hcosr : cosr q = Real.cos pitch) (hsinp : sinp q = Real.sin pitch) :
    q = angleAxis pitch unitY ∨ q = -angleAxis pitch unitY := by
  obtain ⟨hI, hK⟩ := imI_imK_eq_zero h (hcosy ▸ hpos.ne') hsiny (hcosr.trans hcosy.symm)
  rw [cosy_of_normSq h, hI, hK] at hcosy
  rw [sinp_eq, sin_eq_half, hI, hK] at hsinp
  rw [normSq_def', hI, hK] at h
  have hcos := cos_eq_half pitch
  have hone := Real.sin_sq_add_cos_sq (pitch / 2)
  have hre : q.re ^ 2 = Real.cos (pitch / 2) ^ 2 := by linear_combination (h + hcosy + hcos - hone) / 2
  have hne : Real.cos (pitch / 2) ≠ 0 := by
    intro hzero
    rw [hzero] at hcos
    linarith [sq_nonneg (Real.sin (pitch / 2))]
  rcases sq_eq_sq_iff_eq_or_eq_neg.1 hre with hre | hre
  · left
    have hJ : q.imJ = Real.sin (pitch / 2) := by
      refine mul_left_cancel₀ hne ?_
      linear_combination hsinp / 2 - q.imJ * hre
    ext <;> simp [unitY, hre, hI, hJ, hK]
  · right
    have hJ : q.imJ = -Real.sin (pitch / 2) := by
      refine mul_left_cancel₀ hne ?_
      linear_combination -hsinp / 2 + q.imJ * hre
    ext <;> simp [unitY, hre, hI, hJ, hK]

/-- What is left when the roll and the yaw have been taken off. -/
theorem HasAngles.level {euler : EulerAngles} (hangles : HasAngles q euler) :
    let level := angleAxis (-euler.yaw) unitZ * (q * angleAxis (-euler.roll) unitX)
    level = angleAxis euler.pitch unitY ∨ level = -angleAxis euler.pitch unitY := by
  have hnorm := normSq_mul_eq_one h (normSq_angleAxis (-euler.roll) unitX_sq)
  refine eq_angleAxis_unitY (normSq_mul_eq_one (normSq_angleAxis _ unitZ_sq) hnorm) hangles.pos ?_ ?_ ?_ ?_
  · rw [siny_yaw hnorm, siny_roll, cosy_roll, Real.cos_neg, Real.sin_neg, ← hangles.cosy, ← hangles.siny]
    ring
  · rw [cosy_yaw hnorm, siny_roll, cosy_roll, Real.cos_neg, Real.sin_neg, ← hangles.cosy, ← hangles.siny]
    linear_combination Real.cos euler.pitch * Real.sin_sq_add_cos_sq euler.yaw
  · rw [cosr_yaw, cosr_roll h, Real.cos_neg, Real.sin_neg, ← hangles.cosr, ← hangles.sinr]
    linear_combination Real.cos euler.pitch * Real.sin_sq_add_cos_sq euler.roll
  · rw [sinp_yaw, sinp_roll, hangles.sinp]

theorem HasAngles.eq_eulerToQuaternion {euler : EulerAngles} (hangles : HasAngles q euler) :
    q = eulerToQuaternion euler ∨ q = -eulerToQuaternion euler := by
  have hq : angleAxis euler.yaw unitZ * (angleAxis (-euler.yaw) unitZ * (q * angleAxis (-euler.roll) unitX)) *
      angleAxis euler.roll unitX = q := by
    rw [← mul_assoc, angleAxis_mul_neg _ unitZ_sq, one_mul, mul_assoc, angleAxis_neg_mul _ unitX_sq, mul_one]
  rw [← hq, eulerToQuaternion]
  rcases hangles.level h with hpitch | hpitch
  · left
    rw [hpitch]
  · right
    rw [hpitch]
    exact (congrArg (· * angleAxis euler.roll unitX) (mul_neg _ _)).trans (neg_mul _ _)

/-- Away from the right angles. -/
theorem eq_eulerToQuaternion_of_abs_lt (hlt : |sinp q| < 1) :
    let euler : EulerAngles := ⟨rollFromQuaternion q, Real.arcsin (sinp q), yawFromQuaternion q⟩
    q = eulerToQuaternion euler ∨ q = -eulerToQuaternion euler := by
  intro euler
  obtain ⟨hlow, hhigh⟩ := abs_lt.1 hlt
  have hsin : Real.sin euler.pitch = sinp q := Real.sin_arcsin hlow.le hhigh.le
  have hpos : 0 < Real.cos euler.pitch := by
    rw [Real.cos_arcsin, Real.sqrt_pos]
    nlinarith
  have hcos : Real.cos euler.pitch ^ 2 = 1 - sinp q ^ 2 := by
    rw [← hsin]
    linear_combination Real.sin_sq_add_cos_sq euler.pitch
  obtain ⟨hcosyaw, hsinyaw⟩ := mul_cos_atan2 hpos.le ((siny_sq_add_cosy_sq h).trans hcos.symm)
  obtain ⟨hcosroll, hsinroll⟩ := mul_cos_atan2 hpos.le ((sinr_sq_add_cosr_sq h).trans hcos.symm)
  exact HasAngles.eq_eulerToQuaternion h ⟨hpos, hsin.symm, hcosyaw, hsinyaw, hcosroll, hsinroll⟩

end

/-! ### Gimbal lock -/

theorem eulerToQuaternion_of_roll_zero (pitch yaw : ℝ) : eulerToQuaternion ⟨0, pitch, yaw⟩ =
    ⟨Real.cos (yaw / 2) * Real.cos (pitch / 2), -(Real.sin (yaw / 2) * Real.sin (pitch / 2)),
      Real.cos (yaw / 2) * Real.sin (pitch / 2), Real.sin (yaw / 2) * Real.cos (pitch / 2)⟩ := by
  rw [eulerToQuaternion]
  ext <;> simp [unitX, unitY, unitZ]

theorem cos_sign_mul {sign : ℝ} (h : sign = 1 ∨ sign = -1) (angle : ℝ) : Real.cos (sign * angle) = Real.cos angle := by
  rcases h with rfl | rfl
  · rw [one_mul]
  · rw [neg_one_mul, Real.cos_neg]

theorem sin_sign_mul {sign : ℝ} (h : sign = 1 ∨ sign = -1) (angle : ℝ) :
    Real.sin (sign * angle) = sign * Real.sin angle := by
  rcases h with rfl | rfl
  · rw [one_mul, one_mul]
  · rw [neg_one_mul, neg_one_mul, Real.sin_neg]

/-- At a right angle, with the sign of the pitch. -/
theorem eq_eulerToQuaternion_of_gimbal {q : ℍ[ℝ]} (h : normSq q = 1) {sign pitch : ℝ} (hsign : sign = 1 ∨ sign = -1)
    (hsinp : sinp q = sign) (hpitch : pitch = sign * mPi2) :
    q = eulerToQuaternion ⟨0, pitch, sign * -2.0 * atan2 q.imI q.re⟩ := by
  have hsq : sign ^ 2 = 1 := by rcases hsign with rfl | rfl <;> norm_num
  rw [normSq_def'] at h
  rw [sinp_eq] at hsinp
  have hsum : (q.re - sign * q.imJ) ^ 2 + (q.imI + sign * q.imK) ^ 2 = 0 := by
    linear_combination h + (q.imJ ^ 2 + q.imK ^ 2 - 1) * hsq - sign * hsinp
  have hJ : q.re - sign * q.imJ = 0 := by nlinarith [sq_nonneg (q.re - sign * q.imJ), sq_nonneg (q.imI + sign * q.imK)]
  have hK : q.imI + sign * q.imK = 0 := by nlinarith [sq_nonneg (q.re - sign * q.imJ), sq_nonneg (q.imI + sign * q.imK)]
  have hquarter : Real.cos (Real.pi / 4) ^ 2 = 1 / 2 := by
    rw [Real.cos_pi_div_four, div_pow, Real.sq_sqrt zero_le_two]
    norm_num
  have hnorm : q.imI ^ 2 + q.re ^ 2 = Real.cos (Real.pi / 4) ^ 2 := by
    rw [hquarter]
    linear_combination
      (h + (q.re + sign * q.imJ) * hJ + (q.imI - sign * q.imK) * hK + (q.imJ ^ 2 + q.imK ^ 2) * hsq) / 2
  obtain ⟨hre, hI⟩ := mul_cos_atan2 (by rw [Real.cos_pi_div_four]; positivity) hnorm
  have hyaw : sign * -2.0 * atan2 q.imI q.re / 2 = sign * -atan2 q.imI q.re := by
    norm_num
    ring
  have hhalf : pitch / 2 = sign * (Real.pi / 4) := by
    rw [hpitch, mPi2_eq]
    ring
  have hsin : Real.sin (Real.pi / 4) = Real.cos (Real.pi / 4) := by rw [Real.sin_pi_div_four, Real.cos_pi_div_four]
  rw [eulerToQuaternion_of_roll_zero, hyaw, hhalf, cos_sign_mul hsign, cos_sign_mul hsign, sin_sign_mul hsign,
    sin_sign_mul hsign, Real.cos_neg, Real.sin_neg, hsin]
  ext
  · linear_combination -hre
  · linear_combination -hI - Real.sin (atan2 q.imI q.re) * Real.cos (Real.pi / 4) * hsq
  · linear_combination -sign * hre - sign * hJ - q.imJ * hsq
  · linear_combination sign * hI + sign * hK - q.imK * hsq

/-! ### The round trip -/

theorem kPrecision_pos : 0 < kPrecision := by norm_num [kPrecision]

theorem kPrecision_lt_one : kPrecision < 1 := by norm_num [kPrecision]

/-- The pitch is not rounded. -/
def PitchExact (q : ℍ[ℝ]) : Prop := |sinp q| = 1 ∨ |sinp q| < 1 - kPrecision

theorem eq_eulerToQuaternion_eulerAngles {q : ℍ[ℝ]} (h : normSq q = 1) (hexact : PitchExact q) :
    q = eulerToQuaternion (eulerAngles q) ∨ q = -eulerToQuaternion (eulerAngles q) := by
  have hpos := kPrecision_pos
  have hone := kPrecision_lt_one
  have hpi : 0 < mPi2 := half_pos Real.pi_pos
  rcases hexact with heq | hlt
  · left
    rcases (abs_eq zero_le_one).1 heq with hsinp | hsinp
    · have hpitch : pitchFromQuaternion q = mPi2 := by rw [pitchFromQuaternion, if_pos (by linarith)]
      rw [eulerAngles, hpitch, if_pos (.inl rfl), if_pos (by linarith)]
      exact eq_eulerToQuaternion_of_gimbal h (.inl rfl) hsinp (one_mul _).symm
    · have hpitch : pitchFromQuaternion q = -mPi2 := by
        rw [pitchFromQuaternion, if_neg (by linarith), if_pos (by linarith)]
      rw [eulerAngles, hpitch, if_pos (.inr rfl), if_neg (by linarith)]
      exact eq_eulerToQuaternion_of_gimbal h (.inr rfl) hsinp (neg_one_mul _).symm
  · obtain ⟨hlow, hhigh⟩ := abs_lt.1 hlt
    have hpitch : pitchFromQuaternion q = Real.arcsin (sinp q) := by
      rw [pitchFromQuaternion, if_neg (by linarith), if_neg (by linarith)]
    have hright : ¬ (Real.arcsin (sinp q) = mPi2 ∨ Real.arcsin (sinp q) = -mPi2) := by
      have hlt := Real.arcsin_lt_pi_div_two.2 (show sinp q < 1 by linarith)
      have hgt := Real.neg_pi_div_two_lt_arcsin.2 (show -1 < sinp q by linarith)
      exact not_or.2 ⟨hlt.ne, hgt.ne'⟩
    rw [eulerAngles, hpitch, if_neg hright]
    exact eq_eulerToQuaternion_of_abs_lt h (abs_lt.2 ⟨by linarith, by linarith⟩)

theorem eulerToQuaternion_quaternionToEuler (q : ℍ[ℝ]) :
    eulerToQuaternion (quaternionToEuler q) = eulerToQuaternion (eulerAngles q) ∨
      eulerToQuaternion (quaternionToEuler q) = -eulerToQuaternion (eulerAngles q) :=
  have hwrap (angle : ℝ) (axis : Fin 3 → ℝ) := angleAxis_of_modEq axis (wrapToPi_modEq angle)
  mul_eq_or_eq_neg (mul_eq_or_eq_neg (hwrap _ unitZ) (hwrap _ unitY)) (hwrap _ unitX)

/-- The quaternion comes back up to its sign, and the angles are within half a turn. -/
theorem quaternion_round_trip (q : ℍ[ℝ]) (hnorm : normSq q = 1)
    (hexact : |2 * (q.re * q.imJ - q.imI * q.imK)| = 1 ∨ |2 * (q.re * q.imJ - q.imI * q.imK)| < 1 - 1e-10) :
    (eulerToQuaternion (quaternionToEuler q) = q ∨ eulerToQuaternion (quaternionToEuler q) = -q) ∧
      |(quaternionToEuler q).roll| ≤ Real.pi ∧ |(quaternionToEuler q).pitch| ≤ Real.pi ∧
      |(quaternionToEuler q).yaw| ≤ Real.pi := by
  refine ⟨?_, abs_wrapToPi_le _, abs_wrapToPi_le _, abs_wrapToPi_le _⟩
  rw [← sinp_eq] at hexact
  rcases eulerToQuaternion_quaternionToEuler q with hwrap | hwrap
  · rw [hwrap]
    rcases eq_eulerToQuaternion_eulerAngles hnorm hexact with heq | heq
    · exact .inl heq.symm
    · exact .inr (neg_eq_iff_eq_neg.1 heq.symm)
  · rw [hwrap]
    rcases eq_eulerToQuaternion_eulerAngles hnorm hexact with heq | heq
    · exact .inr (congrArg Neg.neg heq.symm)
    · exact .inl heq.symm

/-- In gimbal lock, with a pitch of π/2. -/
theorem quaternion_round_trip_gimbal :
    eulerToQuaternion (quaternionToEuler ⟨1 / 2, 1 / 2, 1 / 2, -1 / 2⟩) = ⟨1 / 2, 1 / 2, 1 / 2, -1 / 2⟩ ∨
      eulerToQuaternion (quaternionToEuler ⟨1 / 2, 1 / 2, 1 / 2, -1 / 2⟩) = -⟨1 / 2, 1 / 2, 1 / 2, -1 / 2⟩ :=
  (quaternion_round_trip ⟨1 / 2, 1 / 2, 1 / 2, -1 / 2⟩ ((normSq_def' _).trans (by norm_num)) (.inl (by norm_num))).1

end

end A17.Maths
