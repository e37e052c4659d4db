import A17.Lib.LongestSuffix
import A17.Utils.NearestIntervalBin
import Mathlib.Data.List.Induction

/-!
# `RateMeasure`

`rate_measure.cpp`. The queues are lists with the front first. An `int64_t` is an integer and does not
overflow: for positive times that do not decrease, the sum of the intervals is at most the latest time.
The jitter is a `double`, and so is the sum that goes into `jitter_acc_`. `markSize` fails when it would
take the front of an empty queue.
-/

namespace A17.Utils
open LongestSuffix

structure RateMeasure where
  sampleWindow : Int
  targetInterval : Int := 0
  currentTargetIndex : Nat := 0
  intervals : List Int := []
  jitters : List Int := []
  sizes : List UInt64 := []
  ticks : UInt64 := 0
  lastTime : Int := 0
  intervalAcc : Int := 0
  jitterAcc : Int := 0
  sizeAcc : UInt64 := 0
  avgInterval : Int := 0
  maxJitter : Int := 0

/-- `while (interval_acc_ > sample_window_)`. -/
def evictOver (window : Int) : List Int → Int → Option (List Int × Int)
  | [], acc => if acc > window then none else some ([], acc)
  | x :: queue, acc => if acc > window then evictOver window queue (acc - x) else some (x :: queue, acc)

/-- `while (queue.size() > count)`, for `jitters_` and `sizes_`; the queue is not empty then. -/
def evictTo {α : Type} [Sub α] (count : Nat) : List α → α → List α × α
  | [], acc => ([], acc)
  | x :: queue, acc =>
    if (x :: queue).length > count then evictTo count queue (acc - x) else (x :: queue, acc)

/-- The conversion of a `double` to an integer. -/
def truncate (x : ℚ) : Int := x.num.tdiv x.den

namespace RateMeasure

def pushInterval (m : RateMeasure) (interval : Int) : Option RateMeasure :=
  (evictOver m.sampleWindow (m.intervals ++ [interval]) (m.intervalAcc + interval)).map fun r =>
    { m with intervals := r.1, intervalAcc := r.2 }

/-- `avg_interval_` and `target_interval_`; the division and the bins are unsigned. -/
def findTarget (m : RateMeasure) : RateMeasure :=
  if m.intervals.isEmpty then m
  else
    let avg := UInt64.ofInt m.intervalAcc / UInt64.ofNat m.intervals.length
    let bin := nearestIntervalBin Binary64.ofRat avg m.currentTargetIndex
    { m with
      avgInterval := avg.toInt64.toInt
      targetInterval := bin.value.toInt64.toInt
      currentTargetIndex := bin.index }

def pushJitter (m : RateMeasure) (interval : Int) : RateMeasure :=
  let jitter := |Binary64.ofRat (interval - m.targetInterval : Int)|
  let r := evictTo m.intervals.length (m.jitters ++ [truncate jitter])
    (truncate (Binary64.ofRat (Binary64.ofRat m.jitterAcc + jitter)))
  { m with
    maxJitter := if jitter > Binary64.ofRat m.maxJitter then truncate jitter else m.maxJitter
    jitters := r.1
    jitterAcc := r.2 }

def pushSize (m : RateMeasure) (size : UInt64) : RateMeasure :=
  let r := evictTo m.intervals.length (m.sizes ++ [size]) (m.sizeAcc + size)
  { m with sizes := r.1, sizeAcc := r.2 }

def markSize (m : RateMeasure) (size : UInt64) (now : Int) : Option RateMeasure :=
  let m := { m with ticks := m.ticks + 1 }
  if m.lastTime ≠ 0 then
    let interval := now - m.lastTime
    (m.pushInterval interval).map fun m =>
      { (m.findTarget.pushJitter interval).pushSize size with lastTime := now }
  else some { m with lastTime := now }

def sampleCount (m : RateMeasure) : Nat := m.intervals.length

def size (m : RateMeasure) : Nat := if ¬ m.sizes.isEmpty then m.sizeAcc.toNat / m.sizes.length else 0

end RateMeasure

/-! ### The eviction loops -/

structure Sample where
  interval : Int
  size : UInt64
deriving DecidableEq

theorem evictOver_total {w : Int} (hw : 0 ≤ w) (q : List Sample) :
    evictOver w (q.map Sample.interval) (total Sample.interval q) =
      some ((trim Sample.interval w q).map Sample.interval, total Sample.interval (trim Sample.interval w q)) := by
  induction q with
  | nil => simp [evictOver, trim, hw]
  | cons a q ih =>
    rw [List.map_cons, evictOver, trim]
    by_cases h : w < total Sample.interval (a :: q)
    · rw [if_pos h, if_pos h, total_cons, add_sub_cancel_left, ih]
    · rw [if_neg h, if_neg h, List.map_cons]

theorem evictTo_fst {α : Type} [Sub α] (count : Nat) (q : List α) (acc : α) :
    (evictTo count q acc).1 = q.drop (q.length - count) := by
  induction q generalizing acc with
  | nil => simp [evictTo]
  | cons x q ih =>
    rw [evictTo]
    by_cases h : (x :: q).length > count
    · rw [if_pos h, ih, show (x :: q).length - count = q.length - count + 1 by simp at h ⊢; omega,
        List.drop_succ_cons]
    · rw [if_neg h, show (x :: q).length - count = 0 by omega, List.drop_zero]

/-- `value` reads the elements as numbers; `hsub` says that nothing wraps. -/
theorem evictTo_snd {α M : Type} [Sub α] [AddCommMonoid M] {value : α → M}
    (hsub : ∀ acc x s, value acc = value x + s → value (acc - x) = s) (count : Nat) {q : List α} {acc : α}
    (h : value acc = (q.map value).sum) :
    value (evictTo count q acc).2 = ((evictTo count q acc).1.map value).sum := by
  induction q generalizing acc with
  | nil => simpa [evictTo] using h
  | cons x q ih =>
    rw [evictTo]
    by_cases hl : (x :: q).length > count
    · rw [if_pos hl]
      exact ih (hsub acc x _ (by simpa using h))
    · rw [if_neg hl]
      exact h

theorem toNat_sub_of_add_eq (acc x : UInt64) (s : Nat) (h : acc.toNat = x.toNat + s) : (acc - x).toNat = s := by
  rw [UInt64.toNat_sub_of_le acc x (UInt64.le_iff_toNat_le.2 (by omega))]
  omega

@[simp] theorem truncate_intCast (n : Int) : truncate n = n := by
  simp [truncate]

end A17.Utils
