import A17.Maths.AngleUtils

/-!
# `angle_unroller.cpp`

Each angle moves the unrolled angle by the difference of the two wrapped angles, or by what is left of a turn if that
is more than half of one. So the unrolled angle is always the given one up to whole turns, and never jumps.
-/

namespace A17.Maths

structure AngleUnroller (K : Type) where
  unrolledAngle : K

namespace AngleUnroller
variable {K : Type} [Field K] [LinearOrder K] [IsStrictOrderedRing K] [FloorRing K] [HalfTurn K]

/-- The angle returned, and the unroller afterwards. -/
def unrollAngle (u : AngleUnroller K) (angle : K) : K × AngleUnroller K :=
  let previousAngle := wrapToPi u.unrolledAngle
  let angle := wrapToPi angle
  let diff := angle - previousAngle
  let unrolledAngle :=
    if |diff| ≤ kPi then u.unrolledAngle + diff
    else if diff > 0 then u.unrolledAngle - (turn - diff)
    else u.unrolledAngle + (turn + diff)
  (unrolledAngle, ⟨unrolledAngle⟩)

def run (u : AngleUnroller K) (angles : List K) : AngleUnroller K :=
  angles.foldl (fun u angle => (u.unrollAngle angle).2) u

/-- The step is the difference of the wrapped angles, up to a turn, and at most half a turn. -/
theorem unrollAngle_spec (u : AngleUnroller K) (angle : K) : ∃ step : K,
    (u.unrollAngle angle).1 = u.unrolledAngle + step ∧ |step| ≤ kPi ∧
      step ≡ wrapToPi angle - wrapToPi u.unrolledAngle [PMOD turn] := by
  have hpi : 0 < (kPi : K) := kPi_pos
  have hturn : (turn : K) = 2 * kPi := turn_eq
  obtain ⟨ha, ha'⟩ := abs_le.1 (abs_wrapToPi_le angle)
  obtain ⟨hu, hu'⟩ := abs_le.1 (abs_wrapToPi_le u.unrolledAngle)
  rw [unrollAngle]
  dsimp only
  set diff := wrapToPi angle - wrapToPi u.unrolledAngle with hdiff
  split_ifs with hsmall hpos
  · exact ⟨diff, rfl, hsmall, AddCommGroup.modEq_rfl⟩
  · -- forwards by more than half a turn: backwards by the rest
    rw [abs_of_pos hpos, not_le] at hsmall
    refine ⟨diff - turn, by ring, abs_le.2 ⟨by linarith, by linarith⟩, ?_⟩
    exact AddCommGroup.modEq_iff_zsmul.2 ⟨1, by simp⟩
  · rw [abs_of_nonpos (not_lt.1 hpos), not_le] at hsmall
    refine ⟨turn + diff, by ring, abs_le.2 ⟨by linarith, by linarith⟩, ?_⟩
    exact AddCommGroup.modEq_iff_zsmul.2 ⟨-1, by simp⟩

theorem unrollAngle_modEq (u : AngleUnroller K) (angle : K) : (u.unrollAngle angle).1 ≡ angle [PMOD turn] := by
  obtain ⟨step, hstep, -, hmod⟩ := unrollAngle_spec u angle
  rw [hstep]
  have hsum := (wrapToPi_modEq u.unrolledAngle).symm.add hmod
  rw [add_sub_cancel] at hsum
  exact hsum.trans (wrapToPi_modEq angle)

/-- After any angles, the next one is returned up to whole turns, and at most half a turn from the one before. -/
theorem unroll_removes_discontinuities (initialAngle : ℝ) (angles : List ℝ) (angle : ℝ) :
    (∃ n : ℤ, ((run ⟨initialAngle⟩ angles).unrollAngle angle).1 - angle = n * (2 * Real.pi)) ∧
      |((run ⟨initialAngle⟩ angles).unrollAngle angle).1 - (run ⟨initialAngle⟩ angles).unrolledAngle| ≤ Real.pi ∧
      ((run ⟨initialAngle⟩ angles).unrollAngle angle).2.unrolledAngle =
        ((run ⟨initialAngle⟩ angles).unrollAngle angle).1 := by
  set u := run ⟨initialAngle⟩ angles
  obtain ⟨n, hn⟩ := modEq_turn_iff.1 (unrollAngle_modEq u angle)
  obtain ⟨step, hstep, hle, -⟩ := unrollAngle_spec u angle
  refine ⟨⟨n, ?_⟩, ?_, rfl⟩
  · exact sub_eq_of_eq_add' hn
  · rw [hstep, add_sub_cancel_left]
    exact hle

end AngleUnroller
end A17.Maths
