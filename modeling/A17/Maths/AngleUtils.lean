import Mathlib.Analysis.SpecialFunctions.Trigonometric.Basic
import A17.Lib.Wrap

/-!
# `angle_utils.cpp`

Angles are numbers of an ordered field in which half a turn is known. For the reals that is π; with rationals and an
approximation of it the functions can be run. `wrapToPi` keeps the side of half a turn it comes from: an odd number of
half turns becomes `kPi` if it is positive and `-kPi` if not.
-/

namespace A17.Maths

class HalfTurn (K : Type) [Field K] [LinearOrder K] where
  kPi : K
  kPi_pos : 0 < kPi

export HalfTurn (kPi kPi_pos)

noncomputable instance : HalfTurn ℝ := ⟨Real.pi, Real.pi_pos⟩

/-- `M_PI_2`. -/
noncomputable def mPi2 : ℝ := Real.pi / 2

theorem mPi2_eq : mPi2 = Real.pi / 2 := rfl

section
variable {K : Type} [Field K] [LinearOrder K] [IsStrictOrderedRing K] [FloorRing K] [HalfTurn K]

/-- Twice `kPi`. -/
def turn : K := 2 * kPi

theorem turn_pos : 0 < (turn : K) := mul_pos two_pos kPi_pos

omit [IsStrictOrderedRing K] [FloorRing K] in
theorem turn_eq : (turn : K) = 2 * kPi := rfl

omit [IsStrictOrderedRing K] [FloorRing K] in
theorem neg_kPi_add_turn : -kPi + turn = (kPi : K) := by
  rw [turn_eq]
  ring

omit [IsStrictOrderedRing K] [FloorRing K] in
theorem modEq_turn_iff {angle angle' : K} :
    angle ≡ angle' [PMOD turn] ↔ ∃ n : ℤ, angle = angle' + n * (2 * kPi) := by
  rw [AddCommGroup.modEq_comm, AddCommGroup.modEq_iff_eq_add_zsmul]
  simp only [zsmul_eq_mul, turn_eq]

def wrapToPi (angle : K) : K := Wrap.ascend turn_pos (-kPi) (Wrap.descend turn_pos kPi angle)

def angleDiff (angle1 angle2 : K) : K := kPi - |Wrap.fmod |angle1 - angle2| (kPi * 2) - kPi|

theorem wrapToPi_modEq (angle : K) : wrapToPi angle ≡ angle [PMOD turn] :=
  (Wrap.ascend_modEq ..).trans (Wrap.descend_modEq ..)

theorem neg_kPi_le_wrapToPi (angle : K) : -kPi ≤ wrapToPi angle := Wrap.le_ascend ..

theorem wrapToPi_le (angle : K) : wrapToPi angle ≤ kPi :=
  Wrap.ascend_le_of_le turn_pos (Wrap.descend_le turn_pos kPi angle) neg_kPi_add_turn.le

theorem abs_wrapToPi_le (angle : K) : |wrapToPi angle| ≤ kPi :=
  abs_le.2 ⟨neg_kPi_le_wrapToPi angle, wrapToPi_le angle⟩

theorem neg_kPi_lt_wrapToPi {angle : K} (h : -kPi < angle) : -kPi < wrapToPi angle := by
  have hlt : -kPi < Wrap.descend turn_pos kPi angle :=
    Wrap.lt_descend_of_lt turn_pos h (eq_sub_of_add_eq neg_kPi_add_turn).le
  rwa [wrapToPi, Wrap.ascend_of_le turn_pos hlt.le]

theorem wrapToPi_lt {angle : K} (h : angle < kPi) : wrapToPi angle < kPi := by
  rw [wrapToPi, Wrap.descend_of_le turn_pos h.le]
  exact Wrap.ascend_lt_of_lt turn_pos h neg_kPi_add_turn.le

/-- No number of whole turns is nearer to the angle than what `wrapToPi` takes off. -/
theorem abs_wrapToPi_isLeast (angle : K) :
    IsLeast (Set.range fun n : ℤ => |angle - n * (2 * kPi)|) |wrapToPi angle| := by
  have hmod := wrapToPi_modEq angle
  constructor
  · obtain ⟨n, hn⟩ := modEq_turn_iff.1 hmod.symm
    exact ⟨n, congrArg abs (sub_eq_of_eq_add hn)⟩
  · rintro _ ⟨n, rfl⟩
    have hturns : angle ≡ angle - n * (2 * kPi) [PMOD turn] := modEq_turn_iff.2 ⟨n, (sub_add_cancel ..).symm⟩
    refine Wrap.abs_le_of_modEq turn_pos (hmod.trans hturns).symm ?_
    rw [turn_eq]
    linarith [abs_wrapToPi_le angle]

/-- The second half of a turn is folded onto the first. -/
theorem sub_abs_sub_eq {w r : K} (hmod : w ≡ r [PMOD turn]) (hw : |w| ≤ kPi) (hr : 0 ≤ r) (hlt : r < turn) :
    kPi - |r - kPi| = |w| := by
  have hturn : (turn : K) = 2 * kPi := turn_eq
  rw [abs_le] at hw
  rcases lt_or_ge w 0 with hneg | hpos
  · have hadd : w + turn ≡ w [PMOD turn] := AddCommGroup.modEq_iff_zsmul.2 ⟨-1, by simp⟩
    have heq : w + turn = r :=
      Wrap.eq_of_modEq turn_pos (hadd.trans hmod) (abs_lt.2 ⟨by linarith, by linarith⟩)
    rw [← heq, abs_of_nonneg (by linarith), abs_of_neg hneg]
    linarith
  · have heq : w = r := Wrap.eq_of_modEq turn_pos hmod (abs_lt.2 ⟨by linarith, by linarith⟩)
    rw [← heq, abs_of_nonpos (by linarith), abs_of_nonneg hpos]
    linarith

theorem angleDiff_eq (angle1 angle2 : K) : angleDiff angle1 angle2 = |wrapToPi (angle1 - angle2)| := by
  have hturn : (kPi * 2 : K) = turn := by rw [turn_eq, mul_comm]
  rw [angleDiff, hturn]
  set angle := angle1 - angle2
  have hmod := wrapToPi_modEq angle
  have hfmod := Wrap.fmod_modEq |angle| turn
  have hnonneg := Wrap.fmod_nonneg turn_pos (abs_nonneg angle)
  have hlt := Wrap.fmod_lt turn_pos (abs_nonneg angle)
  rcases lt_or_ge angle 0 with hneg | hpos
  · rw [abs_of_neg hneg] at hfmod hnonneg hlt ⊢
    rw [← abs_neg (wrapToPi angle)]
    refine sub_abs_sub_eq (hmod.neg.trans hfmod.symm) ?_ hnonneg hlt
    rw [abs_neg]
    exact abs_wrapToPi_le angle
  · rw [abs_of_nonneg hpos] at hfmod hnonneg hlt ⊢
    exact sub_abs_sub_eq (hmod.trans hfmod.symm) (abs_wrapToPi_le angle) hnonneg hlt

end

end A17.Maths
