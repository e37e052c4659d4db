import A17.Lib.Run
import A17.Maths.AngleUtils
import A17.Utils.NearestIntervalBin

/-!
# `PID`

`pid.cpp`, in exact arithmetic. What the clock says only enters through the seconds since the last sample, so these
are an argument of `compute` and no time points are kept. `compute` keeps its output within the limits, but for the
first sample after the construction or a restart it returns what `computeP` computes, which does not
(`output_in_limits_iff`).
-/

namespace A17.Utils
open Maths

inductive PidType where
  | linear
  | angular
deriving DecidableEq, Repr

structure PID (K : Type) where
  kP : K
  kI : K
  kD : K
  minOutput : K
  maxOutput : K
  antiwindupDamping : K
  integralErrorLimit : K
  type : PidType
  firstSampleComputed : Bool
  integralError : K
  lastError : K

namespace PID
variable {K : Type} [Field K] [LinearOrder K] [IsStrictOrderedRing K] [FloorRing K] [HalfTurn K]

def new (kp ki kd : K) : PID K where
  kP := kp
  kI := ki
  kD := kd
  minOutput := -(doubleMax : K)
  maxOutput := (doubleMax : K)
  antiwindupDamping := 1
  integralErrorLimit := (doubleMax : K)
  type := .linear
  firstSampleComputed := false
  integralError := 0
  lastError := 0

variable (p : PID K)

/-- What is left in `error`. -/
def handleAngularDiscontinuity (error : K) : K :=
  if p.type = .angular then
    let error := Wrap.ascend turn_pos (-turn) (Wrap.descend turn_pos turn error)
    if error > kPi then error - turn else if error < -kPi then error + turn else error
  else error

def clip (value limit : K) : K := min limit (max (-limit) value)

/-- The output and the controller afterwards; `last_error_` is the error before it is reduced. -/
def computeP (reference signal : K) : K × PID K :=
  let error := reference - signal
  let p := { p with lastError := error }
  let error := if p.type = .angular then p.handleAngularDiscontinuity error else error
  (p.kP * error, p)

/-- `integral_error_` after a sample. -/
def integrate (error elapsed : K) : K :=
  clip (p.integralError * p.antiwindupDamping + error * elapsed) p.integralErrorLimit

def derivativeError (error elapsed : K) : K := if elapsed > 0 then (error - p.lastError) / elapsed else 0

/-- `PID_output` before it is kept in range. -/
def rawOutput (error elapsed : K) : K :=
  p.kP * error + p.kI * p.integrate error elapsed + p.kD * p.derivativeError error elapsed

def limit (output : K) : K := max (min output p.maxOutput) p.minOutput

/-- `elapsed` are the seconds from `last_timepoint_` to the present. -/
def compute (reference signal elapsed : K) : K × PID K :=
  if p.firstSampleComputed = false then
    { p with firstSampleComputed := true }.computeP reference signal
  else
    let error := reference - signal
    let error := if p.type = .angular then p.handleAngularDiscontinuity error else error
    (p.limit (p.rawOutput error elapsed), { p with integralError := p.integrate error elapsed, lastError := error })

def restartController : PID K := { p with firstSampleComputed := false, integralError := 0, lastError := 0 }

def setKP (kp : K) : PID K := { p with kP := kp }
def setKI (ki : K) : PID K := { p with kI := ki }
def setKD (kd : K) : PID K := { p with kD := kd }
def setGains (kp ki kd : K) : PID K := { p with kP := kp, kI := ki, kD := kd }
def setMaxOutput (max : K) : PID K := { p with maxOutput := max }
def setMinOutput (min : K) : PID K := { p with minOutput := min }
def setAntiWindup (damping integralErrorLimit : K) : PID K :=
  { p with antiwindupDamping := damping, integralErrorLimit := |integralErrorLimit| }
def setType (type : PidType) : PID K := { p with type }

end PID

/-! ### Runs -/

inductive PidOp (K : Type) where
  | setKP (kp : K)
  | setKI (ki : K)
  | setKD (kd : K)
  | setGains (kp ki kd : K)
  | setMaxOutput (max : K)
  | setMinOutput (min : K)
  | setAntiWindup (damping integralErrorLimit : K)
  | setType (type : PidType)
  | compute (reference signal elapsed : K)
  | restartController

namespace PID
variable {K : Type} [Field K] [LinearOrder K] [IsStrictOrderedRing K] [FloorRing K] [HalfTurn K]

def step (p : PID K) : PidOp K → PID K
  | .setKP kp => p.setKP kp
  | .setKI ki => p.setKI ki
  | .setKD kd => p.setKD kd
  | .setGains kp ki kd => p.setGains kp ki kd
  | .setMaxOutput max => p.setMaxOutput max
  | .setMinOutput min => p.setMinOutput min
  | .setAntiWindup damping limit => p.setAntiWindup damping limit
  | .setType type => p.setType type
  | .compute reference signal elapsed => (p.compute reference signal elapsed).2
  | .restartController => p.restartController

/-- The operation is no call of `compute`, or the call returns a value within the limits. -/
def InLimits (p : PID K) : PidOp K → Prop
  | .compute reference signal elapsed =>
    p.minOutput ≤ (p.compute reference signal elapsed).1 ∧ (p.compute reference signal elapsed).1 ≤ p.maxOutput
  | _ => True

/-- A first sample whose proportional part is beyond the limits. -/
def FirstSampleBeyond (p : PID K) : PidOp K → Prop
  | .compute reference signal _ =>
    p.firstSampleComputed = false ∧
      ¬ (p.minOutput ≤ p.kP * p.handleAngularDiscontinuity (reference - signal) ∧
        p.kP * p.handleAngularDiscontinuity (reference - signal) ≤ p.maxOutput)
  | _ => False

/-- The limits are in order when `compute` is called. -/
def Ordered (p : PID K) : PidOp K → Prop
  | .compute _ _ _ => p.minOutput ≤ p.maxOutput
  | _ => True

variable (p : PID K)

theorem handleAngularDiscontinuity_of_type (error : K) :
    (if p.type = .angular then p.handleAngularDiscontinuity error else error) = p.handleAngularDiscontinuity error := by
  rw [handleAngularDiscontinuity]
  split
  · rfl
  · rfl

theorem compute_first (h : p.firstSampleComputed = false) (reference signal elapsed : K) :
    p.compute reference signal elapsed = (p.kP * p.handleAngularDiscontinuity (reference - signal),
      { p with firstSampleComputed := true, lastError := reference - signal }) := by
  rw [compute, if_pos h]
  refine Prod.ext (congrArg (p.kP * ·) ?_) rfl
  exact handleAngularDiscontinuity_of_type { p with firstSampleComputed := true, lastError := reference - signal } _

theorem compute_later (h : p.firstSampleComputed = true) (reference signal elapsed : K) :
    let error := p.handleAngularDiscontinuity (reference - signal)
    p.compute reference signal elapsed = (p.limit (p.rawOutput error elapsed),
      { p with integralError := p.integrate error elapsed, lastError := error }) := by
  rw [compute, if_neg (by simp [h])]
  dsimp only
  rw [handleAngularDiscontinuity_of_type]

omit [Field K] [IsStrictOrderedRing K] [FloorRing K] [HalfTurn K] in
theorem limit_mem (h : p.minOutput ≤ p.maxOutput) (output : K) :
    p.minOutput ≤ p.limit output ∧ p.limit output ≤ p.maxOutput :=
  ⟨le_max_right _ _, max_le (min_le_right _ _) h⟩

theorem inLimits_iff {op : PidOp K} (h : p.Ordered op) : p.InLimits op ↔ ¬ p.FirstSampleBeyond op := by
  cases op with
  | compute reference signal elapsed =>
    rw [InLimits, FirstSampleBeyond]
    cases hfirst : p.firstSampleComputed with
    | false =>
      rw [compute_first p hfirst]
      simp
    | true =>
      rw [compute_later p hfirst]
      simpa using p.limit_mem h _
  | setKP | setKI | setKD | setGains | setMaxOutput | setMinOutput | setAntiWindup | setType | restartController =>
    exact ⟨fun _ h => h, fun _ => trivial⟩

/-- In a run in which the limits are in order, every output is within them exactly if no first sample has a
proportional part beyond them. -/
theorem output_in_limits_iff (kp ki kd : ℝ) (ops : List (PidOp ℝ))
    (hlimits : Run.Steps step Ordered (new kp ki kd) ops) :
    Run.Steps step InLimits (new kp ki kd) ops ↔
      Run.Steps step (fun p op => ¬ p.FirstSampleBeyond op) (new kp ki kd) ops := by
  constructor
  · intro h pre op hpre
    exact (inLimits_iff _ (hlimits pre op hpre)).1 (h pre op hpre)
  · intro h pre op hpre
    exact (inLimits_iff _ (hlimits pre op hpre)).2 (h pre op hpre)

/-- Limits of -5 and 5, and twice an error of 10. -/
def twoSamples : List (PidOp K) := [.setMinOutput (-5), .setMaxOutput 5, .compute 10 0 1, .compute 10 0 1]

theorem ordered_twoSamples : Run.Steps step Ordered (new (1 : ℝ) 0 0) twoSamples := by
  simp only [twoSamples, Run.steps_cons, Ordered, step, setMinOutput, setMaxOutput, true_and]
  refine ⟨by norm_num, ?_, Run.steps_nil⟩
  rw [compute_first _ rfl]
  norm_num

theorem output_in_limits_iff_twoSamples : Run.Steps step InLimits (new (1 : ℝ) 0 0) twoSamples ↔
    Run.Steps step (fun p op => ¬ p.FirstSampleBeyond op) (new (1 : ℝ) 0 0) twoSamples :=
  output_in_limits_iff 1 0 0 twoSamples ordered_twoSamples

/-- The first output is 10. -/
theorem first_sample_beyond : ¬ ∀ (kp ki kd : ℝ) (ops : List (PidOp ℝ)),
    Run.Steps step Ordered (new kp ki kd) ops → Run.Steps step InLimits (new kp ki kd) ops := by
  intro h
  have hsteps := h 1 0 0 twoSamples ordered_twoSamples
  simp only [twoSamples, Run.steps_cons, InLimits, step, setMinOutput, setMaxOutput, true_and] at hsteps
  have hle := hsteps.1.2
  rw [compute_first _ rfl] at hle
  simp [handleAngularDiscontinuity, new] at hle
  norm_num at hle

end PID
end A17.Utils
