import Mathlib.Data.List.Forall2
import A17.Utils.Pid

/-!
# Angles of a `PID`

An angular controller reduces the error to half a turn in either direction before it uses it, so references and
signals should only count up to whole turns. `computeP` stores the error before it reduces it: after a first sample
two such runs differ in `last_error_`, and the derivative of the second sample shows it, unless the limits hide it.
From the third sample on they are the same (`angular_agree_iff`).
-/

namespace A17.Utils
open Maths

structure ControlSample (K : Type) where
  reference : K
  signal : K
  /-- The seconds since the sample before. -/
  elapsed : K

variable {K : Type} [Field K] [LinearOrder K] [IsStrictOrderedRing K] [FloorRing K] [HalfTurn K]

def ControlSample.error (x : ControlSample K) : K := x.reference - x.signal

/-- References and signals that are whole turns apart; the error is no odd number of half turns. -/
structure SameAngles (x x' : ControlSample K) : Prop where
  reference : ∃ n : ℤ, x.reference = x'.reference + n * (2 * kPi)
  signal : ∃ n : ℤ, x.signal = x'.signal + n * (2 * kPi)
  elapsed : x.elapsed = x'.elapsed
  error : ∀ n : ℤ, x.error ≠ (2 * n + 1) * kPi

omit [IsStrictOrderedRing K] [FloorRing K] in
theorem SameAngles.modEq {x x' : ControlSample K} (h : SameAngles x x') : x.error ≡ x'.error [PMOD turn] := by
  obtain ⟨m, hm⟩ := h.reference
  obtain ⟨n, hn⟩ := h.signal
  refine modEq_turn_iff.2 ⟨m - n, ?_⟩
  rw [ControlSample.error, ControlSample.error, hm, hn]
  push_cast
  ring

omit [IsStrictOrderedRing K] [FloorRing K] in
theorem SameAngles.not_modEq {x x' : ControlSample K} (h : SameAngles x x') : ¬ x.error ≡ kPi [PMOD turn] := by
  intro hmod
  obtain ⟨n, hn⟩ := modEq_turn_iff.1 hmod
  refine h.error n ?_
  linear_combination hn

namespace PID

def sample (p : PID K) (x : ControlSample K) : K × PID K := p.compute x.reference x.signal x.elapsed

def outputs (p : PID K) : List (ControlSample K) → List K
  | [] => []
  | x :: samples => (p.sample x).1 :: (p.sample x).2.outputs samples

def after (p : PID K) (samples : List (ControlSample K)) : PID K := samples.foldl (fun p x => (p.sample x).2) p

/-- The same outputs, and the same errors in the end. -/
structure Agree (p : PID K) (samples samples' : List (ControlSample K)) : Prop where
  outputs : p.outputs samples = p.outputs samples'
  integralError : (p.after samples).integralError = (p.after samples').integralError
  lastError : (p.after samples).lastError = (p.after samples').lastError

/-- What `compute` adds up at a sample, if time has passed since the last one and its error was `lastError`. -/
def terms (p : PID K) (lastError : K) (y : ControlSample K) : K :=
  let error := p.handleAngularDiscontinuity y.error
  p.kP * error + p.kI * p.integrate error y.elapsed + p.kD * ((error - lastError) / y.elapsed)

/-- The derivative has no part in the output, or it leaves it beyond the same limit. -/
def Hidden (p : PID K) (lastError lastError' : K) (y : ControlSample K) : Prop :=
  p.kD = 0 ∨ y.elapsed ≤ 0 ∨ p.maxOutput ≤ p.minOutput ∨
    (p.maxOutput ≤ p.terms lastError y ∧ p.maxOutput ≤ p.terms lastError' y) ∨
    (p.terms lastError y ≤ p.minOutput ∧ p.terms lastError' y ≤ p.minOutput)

/-- No output and no state at the end depends on what `computeP` stored. -/
def Unseen (p : PID K) : List (ControlSample K) → List (ControlSample K) → Prop
  | x :: y :: _, x' :: _ => p.firstSampleComputed = true ∨ x.error = x'.error ∨ p.Hidden x.error x'.error y
  | [x], x' :: _ => p.firstSampleComputed = true ∨ x.error = x'.error
  | _, _ => True

/-! ### The reduced error -/

section
variable {p : PID K} (h : p.type = .angular)
include h

theorem handleAngularDiscontinuity_modEq (error : K) : p.handleAngularDiscontinuity error ≡ error [PMOD turn] := by
  have hwrap := (Wrap.ascend_modEq turn_pos (-turn) (Wrap.descend turn_pos turn error)).trans
    (Wrap.descend_modEq turn_pos turn error)
  rw [handleAngularDiscontinuity, if_pos h]
  dsimp only
  split_ifs
  · exact (AddCommGroup.modEq_iff_zsmul.2 ⟨1, by simp⟩).trans hwrap
  · exact (AddCommGroup.modEq_iff_zsmul.2 ⟨-1, by simp⟩).trans hwrap
  · exact hwrap

theorem abs_handleAngularDiscontinuity_le (error : K) : |p.handleAngularDiscontinuity error| ≤ kPi := by
  have hpi : 0 < (kPi : K) := kPi_pos
  have hturn : (turn : K) = 2 * kPi := turn_eq
  have hle := Wrap.descend_le turn_pos turn error
  rw [handleAngularDiscontinuity, if_pos h]
  dsimp only
  set e := Wrap.descend turn_pos turn error
  have hlow := Wrap.le_ascend turn_pos (-turn) e
  have hhigh : Wrap.ascend turn_pos (-turn) e ≤ turn := Wrap.ascend_le_of_le turn_pos hle (by linarith)
  split_ifs <;> exact abs_le.2 ⟨by linarith, by linarith⟩

/-- Errors that are a multiple of a turn apart are reduced to the same, but for half turns. -/
theorem handleAngularDiscontinuity_eq {error error' : K} (hmod : error ≡ error' [PMOD turn])
    (hodd : ¬ error ≡ kPi [PMOD turn]) :
    p.handleAngularDiscontinuity error = p.handleAngularDiscontinuity error' := by
  have hpi : 0 < (kPi : K) := kPi_pos
  have hturn : (turn : K) = 2 * kPi := turn_eq
  have hr := handleAngularDiscontinuity_modEq h error
  have hr' := handleAngularDiscontinuity_modEq h error'
  have hbound := abs_handleAngularDiscontinuity_le h error
  have hbound' := abs_handleAngularDiscontinuity_le h error'
  refine Wrap.eq_of_modEq turn_pos (hr.trans (hmod.trans hr'.symm)) ?_
  set r := p.handleAngularDiscontinuity error
  set r' := p.handleAngularDiscontinuity error'
  have hne : r ≠ kPi := fun heq => hodd (heq ▸ hr.symm)
  have hne' : r ≠ -kPi := by
    intro heq
    refine hodd (hr.symm.trans ?_)
    rw [heq]
    refine modEq_turn_iff.2 ⟨-1, ?_⟩
    push_cast
    ring
  rw [abs_le] at hbound hbound'
  have hlt : r < kPi := lt_of_le_of_ne hbound.2 hne
  have hgt : -kPi < r := lt_of_le_of_ne hbound.1 hne'.symm
  exact abs_lt.2 ⟨by linarith, by linarith⟩

end

/-! ### Samples -/

variable {p : PID K} {x x' y y' : ControlSample K} {samples samples' : List (ControlSample K)}

theorem reduced_eq (h : SameAngles x x') (htype : p.type = .angular) :
    p.handleAngularDiscontinuity x.error = p.handleAngularDiscontinuity x'.error :=
  handleAngularDiscontinuity_eq htype h.modEq h.not_modEq

theorem sample_first (hfirst : p.firstSampleComputed = false) (x : ControlSample K) :
    p.sample x = (p.kP * p.handleAngularDiscontinuity x.error,
      { p with firstSampleComputed := true, lastError := x.error }) :=
  p.compute_first hfirst ..

theorem sample_later (hfirst : p.firstSampleComputed = true) (x : ControlSample K) :
    p.sample x = (p.limit (p.rawOutput (p.handleAngularDiscontinuity x.error) x.elapsed),
      { p with integralError := p.integrate (p.handleAngularDiscontinuity x.error) x.elapsed,
               lastError := p.handleAngularDiscontinuity x.error }) :=
  p.compute_later hfirst ..

theorem sample_eq (h : SameAngles x x') (htype : p.type = .angular) (hfirst : p.firstSampleComputed = true) :
    p.sample x = p.sample x' := by
  rw [sample_later hfirst, sample_later hfirst, reduced_eq h htype, h.elapsed]

/-- After its first sample a controller sees the angles only up to whole turns. -/
theorem outputs_eq (htype : p.type = .angular) (hfirst : p.firstSampleComputed = true)
    (h : List.Forall₂ SameAngles samples samples') :
    p.outputs samples = p.outputs samples' ∧ p.after samples = p.after samples' := by
  induction h generalizing p with
  | nil => exact ⟨rfl, rfl⟩
  | @cons x x' samples samples' hx _ ih =>
    obtain ⟨houtputs, hafter⟩ := ih (p := (p.sample x).2) (by rw [sample_later hfirst]; exact htype)
      (by rw [sample_later hfirst]; exact hfirst)
    have hsample := sample_eq hx htype hfirst
    refine ⟨?_, ?_⟩
    · rw [outputs, outputs, houtputs, hsample]
    · simpa [after, hsample] using hafter

/-! ### The second sample -/

omit [Field K] [IsStrictOrderedRing K] [FloorRing K] [HalfTurn K] in
theorem limit_eq_iff (p : PID K) (o o' : K) : p.limit o = p.limit o' ↔
    o = o' ∨ p.maxOutput ≤ p.minOutput ∨ (p.maxOutput ≤ o ∧ p.maxOutput ≤ o') ∨
      (o ≤ p.minOutput ∧ o' ≤ p.minOutput) := by
  rw [limit, limit]
  grind

omit [IsStrictOrderedRing K] [FloorRing K] [HalfTurn K] in
theorem derivativeError_eq_iff (p : PID K) (lastError lastError' error elapsed : K) :
    { p with lastError }.derivativeError error elapsed =
        { p with lastError := lastError' }.derivativeError error elapsed ↔ elapsed ≤ 0 ∨ lastError = lastError' := by
  rw [derivativeError, derivativeError]
  rcases le_or_gt elapsed 0 with hle | hgt
  · simp [hle, hle.not_gt]
  · rw [if_pos hgt, if_pos hgt, div_left_inj' hgt.ne', sub_right_inj]
    simp [hgt]

omit [FloorRing K] [HalfTurn K] in
theorem rawOutput_eq_iff (p : PID K) (lastError lastError' error elapsed : K) :
    { p with lastError }.rawOutput error elapsed = { p with lastError := lastError' }.rawOutput error elapsed ↔
      p.kD = 0 ∨ elapsed ≤ 0 ∨ lastError = lastError' := by
  rw [← derivativeError_eq_iff p lastError lastError' error elapsed]
  refine (add_right_inj _).trans (mul_eq_mul_left_iff.trans or_comm)

theorem rawOutput_of_pos (p : PID K) (lastError : K) {y : ControlSample K} (h : 0 < y.elapsed) :
    { p with lastError }.rawOutput (p.handleAngularDiscontinuity y.error) y.elapsed = p.terms lastError y := by
  rw [rawOutput, derivativeError, if_pos h]
  rfl

theorem second_output_iff (p : PID K) (lastError lastError' : K) (y : ControlSample K) :
    p.limit ({ p with lastError }.rawOutput (p.handleAngularDiscontinuity y.error) y.elapsed) =
        p.limit ({ p with lastError := lastError' }.rawOutput (p.handleAngularDiscontinuity y.error) y.elapsed) ↔
      lastError = lastError' ∨ p.Hidden lastError lastError' y := by
  rw [limit_eq_iff, rawOutput_eq_iff, Hidden]
  rcases le_or_gt y.elapsed 0 with hle | hgt
  · simp [hle]
  · rw [rawOutput_of_pos p lastError hgt, rawOutput_of_pos p lastError' hgt]
    tauto

/-- What a first sample leaves behind. -/
def primed (p : PID K) (lastError : K) : PID K := { p with firstSampleComputed := true, lastError }

theorem sample_primed (p : PID K) (lastError : K) (y : ControlSample K) :
    (p.primed lastError).sample y =
      (p.limit ({ p with lastError }.rawOutput (p.handleAngularDiscontinuity y.error) y.elapsed),
        { p with firstSampleComputed := true,
                 integralError := p.integrate (p.handleAngularDiscontinuity y.error) y.elapsed,
                 lastError := p.handleAngularDiscontinuity y.error }) :=
  sample_later (p := p.primed lastError) rfl y

theorem agree_singleton_iff (hfirst : p.firstSampleComputed = false) : p.Agree [x] [x'] ↔ x.error = x'.error := by
  constructor
  · intro hagree
    simpa [after, sample_first hfirst] using hagree.lastError
  · intro heq
    refine ⟨?_, ?_, ?_⟩
    · simp [outputs, sample_first hfirst, heq]
    · simp [after, sample_first hfirst]
    · simpa [after, sample_first hfirst] using heq

/-- Up to the second sample the runs may differ, and there only in the output. -/
theorem agree_cons_cons_iff (htype : p.type = .angular) (hfirst : p.firstSampleComputed = false) (hx : SameAngles x x')
    (hy : SameAngles y y') (h : List.Forall₂ SameAngles samples samples') :
    p.Agree (x :: y :: samples) (x' :: y' :: samples') ↔ x.error = x'.error ∨ p.Hidden x.error x'.error y := by
  rw [← second_output_iff]
  have hsample (x : ControlSample K) : p.sample x = (p.kP * p.handleAngularDiscontinuity x.error, p.primed x.error) :=
    sample_first hfirst x
  have hreduced := reduced_eq hx htype
  have hreduced' := reduced_eq hy htype
  have htail := outputs_eq (p := ((p.primed x.error).sample y).2) (by rw [sample_primed]; exact htype)
    (by rw [sample_primed]) h
  rw [sample_primed] at htail
  constructor
  · intro hagree
    have houtputs := hagree.outputs
    simp only [outputs, hsample, sample_primed, List.cons.injEq, hy.elapsed, hreduced'] at houtputs
    rw [hreduced', hy.elapsed]
    exact houtputs.2.1
  · intro houtput
    rw [hreduced', hy.elapsed] at houtput htail
    have hafter : p.after (x :: y :: samples) = p.after (x' :: y' :: samples') := by
      simpa [after, hsample, sample_primed, hreduced', hy.elapsed] using htail.2
    refine ⟨?_, by rw [hafter], by rw [hafter]⟩
    simp only [outputs, hsample, sample_primed, hreduced, hreduced', hy.elapsed, houtput, htail.1]

/-- Two runs agree exactly if what `computeP` stored is not seen. -/
theorem angular_agree_iff (p : PID ℝ) (samples samples' : List (ControlSample ℝ)) (htype : p.type = .angular)
    (h : List.Forall₂ SameAngles samples samples') : p.Agree samples samples' ↔ p.Unseen samples samples' := by
  cases hfirst : p.firstSampleComputed with
  | true =>
    obtain ⟨houtputs, hafter⟩ := outputs_eq htype hfirst h
    refine iff_of_true ⟨houtputs, by rw [hafter], by rw [hafter]⟩ ?_
    rcases h with _ | ⟨hx, _ | ⟨hy, h⟩⟩
    · trivial
    · exact .inl hfirst
    · exact .inl hfirst
  | false =>
    rcases h with _ | ⟨hx, _ | ⟨hy, h⟩⟩
    · exact iff_of_true ⟨rfl, rfl, rfl⟩ trivial
    · simp only [Unseen, hfirst, Bool.false_eq_true, false_or]
      exact agree_singleton_iff hfirst
    · simp only [Unseen, hfirst, Bool.false_eq_true, false_or]
      exact agree_cons_cons_iff htype hfirst hx hy h

/-- Only the derivative counts. -/
def damper : PID K := (((new 0 0 1).setMinOutput (-8)).setMaxOutput 8).setType .angular

def atRest : List (ControlSample K) := [⟨0, 0, 1⟩, ⟨0, 0, 1⟩]

/-- At first a whole turn ahead. -/
def turnedAtFirst : List (ControlSample K) := [⟨turn, 0, 1⟩, ⟨0, 0, 1⟩]

theorem sameAngles_zero {x' : ControlSample ℝ} (n : ℤ) (h : x' = ⟨n * turn, 0, 1⟩) : SameAngles ⟨0, 0, 1⟩ x' := by
  subst h
  refine ⟨⟨-n, by simp [turn_eq]⟩, ⟨0, by simp⟩, rfl, fun m hm => ?_⟩
  have hpi : (kPi : ℝ) ≠ 0 := kPi_pos.ne'
  have hodd : (2 * m + 1 : ℤ) = 0 := by
    have : (2 * m + 1 : ℝ) = 0 := by simpa [ControlSample.error, hpi] using hm.symm
    exact_mod_cast this
  omega

theorem sameAngles_turnedAtFirst : List.Forall₂ SameAngles (atRest : List (ControlSample ℝ)) turnedAtFirst :=
  .cons (sameAngles_zero 1 (by simp)) (.cons (sameAngles_zero 0 (by simp)) .nil)

theorem handleAngularDiscontinuity_zero (p : PID K) : p.handleAngularDiscontinuity 0 = 0 := by
  have hpi : 0 < (kPi : K) := kPi_pos
  rw [handleAngularDiscontinuity, Wrap.descend_of_le turn_pos turn_pos.le,
    Wrap.ascend_of_le turn_pos (neg_nonpos.2 turn_pos.le)]
  simp [hpi.not_gt]

theorem terms_damper (lastError : K) : damper.terms lastError ⟨0, 0, 1⟩ = -lastError := by
  rw [terms, ControlSample.error, sub_zero, handleAngularDiscontinuity_zero]
  simp [damper, new, setMinOutput, setMaxOutput, setType]

theorem angular_agree_iff_damper :
    (damper : PID ℝ).Agree atRest turnedAtFirst ↔ (damper : PID ℝ).Unseen atRest turnedAtFirst :=
  angular_agree_iff damper atRest turnedAtFirst rfl sameAngles_turnedAtFirst

/-- The second output is -2π instead of 0. -/
theorem turn_seen : ¬ ∀ (p : PID ℝ) (samples samples' : List (ControlSample ℝ)), p.type = .angular →
    List.Forall₂ SameAngles samples samples' → p.Agree samples samples' := by
  intro h
  have hagree := h damper atRest turnedAtFirst rfl sameAngles_turnedAtFirst
  rcases (agree_cons_cons_iff rfl rfl (sameAngles_zero 1 (by simp)) (sameAngles_zero 0 (by simp)) .nil).1 hagree with
    heq | hD | helapsed | hlimits | hmax | hmin
  · simp [ControlSample.error, turn_pos.ne] at heq
  · simp [damper, new, setMinOutput, setMaxOutput, setType] at hD
  · norm_num at helapsed
  · norm_num [damper, new, setMinOutput, setMaxOutput, setType] at hlimits
  · have hle := hmax.1
    rw [terms_damper] at hle
    norm_num [damper, new, setMinOutput, setMaxOutput, setType, ControlSample.error] at hle
  · have hle := hmin.1
    rw [terms_damper] at hle
    norm_num [damper, new, setMinOutput, setMaxOutput, setType, ControlSample.error] at hle

end PID
end A17.Utils
