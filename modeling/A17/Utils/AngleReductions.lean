import A17.Utils.PidAngles

/-!
# Three reductions of an angle

`WrapToPi` subtracts turns until the angle is at most half a turn, `PID::handleAngularDiscontinuity` subtracts them
until it is at most a whole one and then folds it once, and `AngleDiff` asks `std::fmod`. They agree on every angle
(`reductions_agree`). At an odd number of half turns the loops stop on the side they come from: an angle above `-kPi`
never becomes `-kPi` and one below `kPi` never `kPi`, so that congruent results are less than a turn apart.
-/

namespace A17.Utils
open Maths Wrap

namespace PID
variable {K : Type} [Field K] [LinearOrder K] [IsStrictOrderedRing K] [FloorRing K] [HalfTurn K]
variable {p : PID K} (h : p.type = .angular)
include h

theorem neg_kPi_lt_handleAngularDiscontinuity {error : K} (hlt : -kPi < error) :
    -kPi < p.handleAngularDiscontinuity error := by
  have hpi : 0 < (kPi : K) := kPi_pos
  have hturn : (turn : K) = 2 * kPi := turn_eq
  have hle := descend_le turn_pos turn error
  have hlow : -kPi < descend turn_pos turn error := lt_descend_of_lt turn_pos hlt (by linarith)
  rw [handleAngularDiscontinuity, if_pos h, ascend_of_le turn_pos (by linarith)]
  dsimp only
  split_ifs <;> linarith

theorem handleAngularDiscontinuity_lt {error : K} (hlt : error < kPi) : p.handleAngularDiscontinuity error < kPi := by
  have hpi : 0 < (kPi : K) := kPi_pos
  have hturn : (turn : K) = 2 * kPi := turn_eq
  have hle := le_ascend turn_pos (-turn) error
  have hhigh : ascend turn_pos (-turn) error < kPi := ascend_lt_of_lt turn_pos hlt (by linarith)
  rw [handleAngularDiscontinuity, if_pos h, descend_of_le turn_pos (by linarith)]
  dsimp only
  split_ifs <;> linarith

theorem handleAngularDiscontinuity_eq_wrapToPi (error : K) : p.handleAngularDiscontinuity error = wrapToPi error := by
  have hpi : 0 < (kPi : K) := kPi_pos
  have hturn : (turn : K) = 2 * kPi := turn_eq
  have hmod := (handleAngularDiscontinuity_modEq h error).trans (wrapToPi_modEq error).symm
  have hbound := abs_le.1 (abs_handleAngularDiscontinuity_le h error)
  have hbound' := abs_le.1 (abs_wrapToPi_le error)
  refine eq_of_modEq turn_pos hmod (abs_lt.2 ?_)
  rcases lt_or_ge (-kPi) error with hgt | hle
  · -- neither result is the lower end
    have hlow := neg_kPi_lt_handleAngularDiscontinuity h hgt
    have hlow' := neg_kPi_lt_wrapToPi hgt
    constructor <;> linarith
  · -- neither is the upper end
    have hlt : error < kPi := by linarith
    have hhigh := handleAngularDiscontinuity_lt h hlt
    have hhigh' := wrapToPi_lt hlt
    constructor <;> linarith

end PID

/-- What the loops of `WrapToPi` do to an angle, one after the other. -/
structure WrapsToPi (angle result : ℝ) : Prop where
  ends : ∃ (rounds rounds' : ℕ) (reduced : ℝ),
    Ends (Real.pi < ·) (· - 2 * Real.pi) angle rounds reduced ∧
    Ends (· < -Real.pi) (· + 2 * Real.pi) reduced rounds' result
  mem : result ∈ Set.Icc (-Real.pi) Real.pi
  turns : ∃ n : ℤ, result = angle + n * (2 * Real.pi)

theorem wrapsToPi (angle : ℝ) : WrapsToPi angle (wrapToPi angle) := by
  refine ⟨⟨_, _, _, descend_ends turn_pos kPi angle, ascend_ends turn_pos (-kPi) _⟩, ?_, ?_⟩
  · exact ⟨neg_kPi_le_wrapToPi angle, wrapToPi_le angle⟩
  · exact modEq_turn_iff.1 (wrapToPi_modEq angle)

theorem reductions_agree (a b : ℝ) :
    WrapsToPi a (wrapToPi a) ∧
    (∀ p : PID ℝ, p.type = .angular → p.handleAngularDiscontinuity a = wrapToPi a) ∧
    angleDiff a b = |wrapToPi (a - b)| ∧
    IsLeast (Set.range fun n : ℤ => |a - b - n * (2 * Real.pi)|) (angleDiff a b) := by
  refine ⟨wrapsToPi a, fun p h => PID.handleAngularDiscontinuity_eq_wrapToPi h a, angleDiff_eq a b, ?_⟩
  rw [angleDiff_eq]
  exact abs_wrapToPi_isLeast (a - b)

end A17.Utils
