import Mathlib.Data.BitVec
import A17.Utils.RateMarks

/-!
# Resetting a `RateMeasure`

`reset` clears the last time and the derived values; the three queues, their sums and the ticks stay. The samples
from before it go on counting, and a measure is like a new one afterwards exactly if no sample was left in the window
and no rounding left in `jitter_acc_` (`reset_fresh_iff`).
-/

namespace A17.Utils
namespace RateMeasure

def reset (m : RateMeasure) : RateMeasure :=
  { m with lastTime := 0, currentTargetIndex := 0, targetInterval := 0, avgInterval := 0, maxJitter := 0 }

def frequency (m : RateMeasure) : ℚ :=
  if m.avgInterval ≠ 0 then Binary64.ofRat (1000000000 / Binary64.ofRat m.avgInterval) else 0

def jitter (m : RateMeasure) : ℚ :=
  if ¬ m.jitters.isEmpty then
    Binary64.ofRat (Binary64.ofRat (Binary64.ofRat m.jitterAcc / Binary64.ofRat m.jitters.length) / 1000)
  else 0

/-- `maxJitter()`; the field of this name is `max_jitter_`. -/
def maxJitterMicros (m : RateMeasure) : ℚ := Binary64.ofRat (Binary64.ofRat m.maxJitter / 1000)

structure Reading where
  sampleCount : Nat
  size : Nat
  frequency : ℚ
  targetInterval : Int
  jitter : ℚ
  maxJitter : ℚ
deriving DecidableEq

def reading (m : RateMeasure) : Reading :=
  ⟨m.sampleCount, m.size, m.frequency, m.targetInterval, m.jitter, m.maxJitterMicros⟩

/-! ### The queues and their sums -/

/-- What the marks keep, whatever their times: as many jitters and sizes as intervals, and the sums. -/
structure Aligned (w : Int) (m : RateMeasure) : Prop where
  sampleWindow : m.sampleWindow = w
  jitters : m.jitters.length = m.intervals.length
  sizes : m.sizes.length = m.intervals.length
  intervalAcc : m.intervalAcc = m.intervals.sum
  sizeAcc : m.sizeAcc.toBitVec = (m.sizes.map UInt64.toBitVec).sum

theorem Aligned.markSize {w : Int} {m m' : RateMeasure} (h : Aligned w m) {size : UInt64} {now : Int}
    (hmark : m.markSize size now = some m') : Aligned w m' := by
  rw [markSize_eq] at hmark
  split at hmark
  · obtain rfl := Option.some.inj hmark
    exact ⟨h.sampleWindow, h.jitters, h.sizes, h.intervalAcc, h.sizeAcc⟩
  obtain ⟨m₁, hpush, rfl⟩ := Option.map_eq_some_iff.1 hmark
  obtain ⟨intervals, hsuffix, -, rfl⟩ := pushInterval_some h.intervalAcc hpush
  have hlen : intervals.length ≤ m.intervals.length + 1 := by simpa using hsuffix.length_le
  obtain ⟨hi, hacc, hwindow, -, hs, jitter, acc, hj⟩ :=
    settle_queues { m with intervals, intervalAcc := intervals.sum } size now (now - m.lastTime)
  obtain ⟨hsizes, hsizeAcc⟩ := Prod.ext_iff.1 hs
  obtain ⟨hjitters, -⟩ := Prod.ext_iff.1 hj
  dsimp only at hsizes hsizeAcc hjitters
  refine ⟨hwindow.trans h.sampleWindow, ?_, ?_, by rw [hacc, hi], ?_⟩
  · rw [hjitters, hi]
    exact length_evictTo (by simpa [h.jitters] using hlen) _
  · rw [hsizes, hi]
    exact length_evictTo (by simpa [h.sizes] using hlen) _
  · rw [hsizes, hsizeAcc]
    refine evictTo_snd (fun acc x s hx => ?_) _ ?_
    · rw [UInt64.toBitVec_sub, hx, add_sub_cancel_left]
    · rw [UInt64.toBitVec_add, h.sizeAcc]
      simp

theorem Aligned.run {w : Int} {marks : List Mark} {m : RateMeasure} (h : RateMeasure.run w marks = some m) :
    Aligned w m := by
  induction marks using List.reverseRecOn generalizing m with
  | nil =>
    obtain rfl : { sampleWindow := w } = m := Option.some.inj h
    exact ⟨rfl, rfl, rfl, rfl, rfl⟩
  | append_singleton marks x ih =>
    rw [run_concat] at h
    obtain ⟨m₀, hrun, hmark⟩ := Option.bind_eq_some_iff.1 h
    exact (ih hrun).markSize hmark

/-! ### Two measures side by side -/

/-- A window that no interval fits into, and nothing in it. -/
structure Vacant (m : RateMeasure) : Prop where
  window : m.sampleWindow < 1
  intervals : m.intervals = []
  intervalAcc : m.intervalAcc = 0
  jitters : m.jitters = []

/-- The second measure is the first but for what is not read off. -/
def Alike (m m' : RateMeasure) : Prop :=
  ∃ ticks jitterAcc, m' = m.besides ticks jitterAcc ∧ (jitterAcc = m.jitterAcc ∨ m.Vacant)

theorem Alike.reading {m m' : RateMeasure} (h : Alike m m') : m'.reading = m.reading := by
  obtain ⟨ticks, jitterAcc, rfl, rfl | hvacant⟩ := h
  · rfl
  · have hjitter : ∀ acc, (m.besides ticks acc).jitter = 0 := by
      intro acc
      rw [jitter, if_neg]
      simp [besides, hvacant.jitters]
    have hjitter' : m.jitter = 0 := hjitter m.jitterAcc
    unfold RateMeasure.reading
    rw [hjitter, hjitter']
    rfl

theorem Vacant.settle {m m₁ : RateMeasure} (h : m.Vacant) {interval : Int} (hpos : 0 < interval)
    (hpush : m.pushInterval interval = some m₁) (size : UInt64) (now : Int) : (m₁.settle size now interval).Vacant := by
  obtain ⟨intervals, hsuffix, hle, rfl⟩ := pushInterval_some (by rw [h.intervals, h.intervalAcc]; rfl) hpush
  have hnil : intervals = [] := by
    rw [h.intervals, List.nil_append] at hsuffix
    rcases List.suffix_cons_iff.1 hsuffix with rfl | hsuffix
    · have := h.window
      rw [List.sum_singleton] at hle
      omega
    · exact List.suffix_nil.1 hsuffix
  subst hnil
  obtain ⟨hi, hacc, hwindow, -, -, jitter, acc, hj⟩ :=
    settle_queues { m with intervals := [], intervalAcc := ([] : List Int).sum } size now interval
  refine ⟨hwindow ▸ h.window, hi, hacc, List.eq_nil_of_length_eq_zero ?_⟩
  have hlen := congrArg (fun r : List Int × Int => r.1.length) hj
  exact hlen.trans (length_evictTo (Nat.zero_le _) _)

theorem Alike.markSize {m m' : RateMeasure} (h : Alike m m') {x : Mark} (hlt : m.lastTime ≠ 0 → m.lastTime < x.now) :
    (m.markSize x.size x.now = none ∧ m'.markSize x.size x.now = none) ∨
      ∃ r r', m.markSize x.size x.now = some r ∧ m'.markSize x.size x.now = some r' ∧ Alike r r' ∧
        r.lastTime = x.now := by
  obtain ⟨ticks, jitterAcc, rfl, hacc⟩ := h
  rw [markSize_besides, markSize_eq]
  by_cases h0 : m.lastTime = 0
  · rw [if_pos h0, if_pos h0]
    refine .inr ⟨_, _, rfl, rfl, ⟨ticks + 1, jitterAcc, rfl, hacc.imp id fun hv => ?_⟩, rfl⟩
    exact ⟨hv.window, hv.intervals, hv.intervalAcc, hv.jitters⟩
  rw [if_neg h0, if_neg h0]
  cases hpush : m.pushInterval (x.now - m.lastTime) with
  | none => exact .inl ⟨rfl, rfl⟩
  | some m₁ =>
    refine .inr ⟨_, _, rfl, rfl, ⟨ticks + 1, _, rfl, ?_⟩, rfl⟩
    rcases hacc with rfl | hvacant
    · left
      obtain ⟨r, -, rfl⟩ := Option.map_eq_some_iff.1 hpush
      exact congrArg (fun m' : RateMeasure => (m'.pushJitter (x.now - m.lastTime)).jitterAcc)
        (findTarget_besides_self _)
    · right
      exact hvacant.settle (by have := hlt h0; omega) hpush x.size x.now

theorem Alike.runFrom {m m' : RateMeasure} (h : Alike m m') {marks : List Mark}
    (hlt : m.lastTime ≠ 0 → ∀ x ∈ marks, m.lastTime < x.now) (hmono : marks.Pairwise (·.now < ·.now)) :
    (m'.runFrom marks).map RateMeasure.reading = (m.runFrom marks).map RateMeasure.reading := by
  induction marks generalizing m m' with
  | nil => exact congrArg some h.reading
  | cons x marks ih =>
    rw [List.pairwise_cons] at hmono
    rw [runFrom_cons, runFrom_cons]
    rcases h.markSize (x := x) fun h0 => hlt h0 x (by simp) with ⟨hnone, hnone'⟩ | ⟨r, r', hr, hr', hrel, hlast⟩
    · rw [hnone, hnone']
    · rw [hr, hr']
      refine ih hrel ?_ hmono.2
      intro _ y hy
      rw [hlast]
      exact hmono.1 y hy

/-! ### After a reset -/

/-- A measure without samples differs from a new one in the ticks and in `jitter_acc_`. -/
theorem Aligned.reset_eq {w : Int} {m : RateMeasure} (h : Aligned w m) (hnil : m.intervals = []) :
    m.reset = besides { sampleWindow := w } m.ticks m.jitterAcc := by
  have hj : m.jitters = [] := List.eq_nil_of_length_eq_zero (by rw [h.jitters, hnil]; rfl)
  have hs : m.sizes = [] := List.eq_nil_of_length_eq_zero (by rw [h.sizes, hnil]; rfl)
  have hacc : m.intervalAcc = 0 := by rw [h.intervalAcc, hnil]; rfl
  have hsacc : m.sizeAcc = 0 := by
    have := h.sizeAcc
    rw [hs] at this
    exact UInt64.toBitVec_inj.1 this
  unfold reset besides
  rw [hnil, hj, hs, hacc, hsacc, h.sampleWindow]

theorem findTarget_one {m : RateMeasure} (hi : m.intervals = [1]) (hacc : m.intervalAcc = 1)
    (hindex : m.currentTargetIndex = 0) : m.findTarget.targetInterval = 1 := by
  have hbin : (nearestIntervalBin Binary64.ofRat (UInt64.ofInt 1) 0).value = 1 := by decide +kernel
  obtain ⟨htarget, -⟩ := findTarget_single hi hacc
  rw [htarget, hindex, hbin]
  rfl

/-- The jitter of two marks a nanosecond apart is 0. -/
theorem settle_one {m : RateMeasure} (hi : m.intervals = [1]) (hacc : m.intervalAcc = 1)
    (hindex : m.currentTargetIndex = 0) (hj : m.jitters = []) (jitterAcc : Int) :
    (m.settle 0 2 1).jitters = [0] ∧
      ((m.findTarget.besides m.findTarget.ticks jitterAcc).pushJitter 1).jitterAcc =
        truncate (Binary64.ofRat (Binary64.ofRat jitterAcc)) := by
  have htarget := findTarget_one hi hacc hindex
  obtain ⟨avg, target, index, hfound⟩ := findTarget_eq m
  obtain rfl : target = 1 := by rwa [hfound] at htarget
  have hzero : |Binary64.ofRat ((1 - 1 : Int) : ℚ)| = 0 := by norm_num
  have htrunc : truncate 0 = 0 := rfl
  rw [settle, hfound]
  unfold pushJitter besides pushSize
  dsimp only
  rw [hj, hi, hzero, htrunc]
  refine ⟨rfl, ?_⟩
  rw [add_zero]
  rfl

/-- Two marks a nanosecond apart: the average jitter shows what was in `jitter_acc_`. -/
theorem jitter_two_marks {w : Int} (hw : 1 ≤ w) (ticks : UInt64) (jitterAcc : Int) :
    ((besides { sampleWindow := w } ticks jitterAcc).runFrom [⟨0, 1⟩, ⟨0, 2⟩]).map jitter =
      some (Binary64.ofRat (Binary64.ofRat (Binary64.ofRat (truncate (Binary64.ofRat (Binary64.ofRat jitterAcc))) /
        Binary64.ofRat ([0] : List Int).length) / 1000)) := by
  set m₁ : RateMeasure := { sampleWindow := w, lastTime := 1, intervals := [1], intervalAcc := 1 }
  have hpush : pushInterval { sampleWindow := w, lastTime := 1 } 1 = some m₁ := pushInterval_first rfl rfl hw
  obtain ⟨hjitters, hacc⟩ := settle_one (m := m₁) rfl rfl rfl rfl jitterAcc
  have hjit : ∀ t acc, ((m₁.settle 0 2 1).besides t acc).jitter =
      Binary64.ofRat (Binary64.ofRat (Binary64.ofRat acc / Binary64.ofRat ([0] : List Int).length) / 1000) := by
    intro t acc
    unfold jitter besides
    dsimp only
    rw [hjitters, if_pos (by simp)]
  rw [runFrom_cons, markSize_besides, if_pos rfl, Option.bind_some, runFrom_cons, markSize_besides, if_neg (by simp)]
  show Option.map jitter (((pushInterval { sampleWindow := w, lastTime := 1 } 1).map _).bind _) = _
  rw [hpush, Option.map_some, Option.bind_some, ← hacc]
  exact congrArg some (hjit _ _)

theorem truncate_ne_zero {x : ℚ} (h : 1 ≤ |x|) : truncate x ≠ 0 := by
  have hden : (0 : ℚ) < x.den := by exact_mod_cast x.den_pos
  rw [Binary64.abs_eq_natAbs_div, le_div_iff₀ hden, one_mul] at h
  have hle : x.den ≤ x.num.natAbs := by exact_mod_cast h
  have hpos : 0 < x.num.natAbs / x.den := Nat.div_pos hle x.den_pos
  rw [← Int.natAbs_ne_zero, truncate, Int.natAbs_tdiv, Int.natAbs_natCast]
  exact hpos.ne'

/-- What is in `jitter_acc_` shows, unless it is 0. -/
theorem jitter_leftover {jitterAcc : Int} (h : jitterAcc ≠ 0) :
    Binary64.ofRat (Binary64.ofRat (Binary64.ofRat (truncate (Binary64.ofRat (Binary64.ofRat jitterAcc))) /
      Binary64.ofRat ([0] : List Int).length) / 1000) ≠ 0 := by
  have hone : ∀ {x : ℚ}, 1 ≤ |x| → 1 ≤ |Binary64.ofRat x| := by
    intro x hx
    rw [Binary64.abs_ofRat, ← Binary64.ofRat_one]
    exact Binary64.ofRat_mono hx
  have habs : 1 ≤ |(jitterAcc : ℚ)| := by exact_mod_cast Int.one_le_abs h
  have htrunc : truncate (Binary64.ofRat (Binary64.ofRat jitterAcc)) ≠ 0 := truncate_ne_zero (hone (hone habs))
  have hlen : Binary64.ofRat ([0] : List Int).length = 1 := by simp
  rw [hlen, div_one]
  refine Binary64.ofRat_ne_zero (div_ne_zero (Binary64.ofRat_ne_zero (Binary64.ofRat_ne_zero ?_)) (by norm_num))
  exact_mod_cast htrunc

/-- After a reset the readings are those of a new measure, whatever follows, exactly if no sample was left in the
window and `jitter_acc_` was 0 or cannot show. -/
theorem reset_fresh_iff {w : Int} {history : List Mark} {m : RateMeasure} (hrun : run w history = some m) :
    (∀ later : List Mark, (∀ x ∈ later, 0 < x.now) → later.Pairwise (·.now < ·.now) →
      (m.reset.runFrom later).map reading = (run w later).map reading) ↔
      m.intervals = [] ∧ (m.jitterAcc = 0 ∨ w < 1) := by
  have haligned := Aligned.run hrun
  constructor
  · intro h
    have hnil : m.intervals = [] := by
      have := h [] (by simp) List.Pairwise.nil
      have hcount : m.intervals.length = 0 := congrArg Reading.sampleCount (Option.some.inj this)
      exact List.eq_nil_of_length_eq_zero hcount
    refine ⟨hnil, ?_⟩
    by_contra hnot
    rw [not_or, not_lt] at hnot
    have htwo := h [⟨0, 1⟩, ⟨0, 2⟩] (by simp) (by simp)
    rw [haligned.reset_eq hnil] at htwo
    have hjitter := congrArg (Option.map Reading.jitter) htwo
    rw [Option.map_map, Option.map_map] at hjitter
    have hleft := jitter_two_marks hnot.2 m.ticks m.jitterAcc
    have hright := jitter_two_marks hnot.2 0 0
    have hsame := Option.some.inj (hleft.symm.trans (hjitter.trans hright))
    refine jitter_leftover hnot.1 (hsame.trans ?_)
    simp [truncate]
  · rintro ⟨hnil, hacc⟩ later hpos hmono
    rw [haligned.reset_eq hnil]
    refine Alike.runFrom ⟨m.ticks, m.jitterAcc, rfl, hacc.imp id fun hw => ?_⟩ (fun h0 => absurd rfl h0) hmono
    exact ⟨hw, rfl, rfl, rfl⟩

theorem reset_fresh_after_one_mark :
    run 10 [⟨0, 5⟩] = some { sampleWindow := 10, ticks := 1, lastTime := 5 } ∧
      ∀ later : List Mark, (∀ x ∈ later, 0 < x.now) → later.Pairwise (·.now < ·.now) →
        ((reset { sampleWindow := 10, ticks := 1, lastTime := 5 }).runFrom later).map reading =
          (run 10 later).map reading := by
  have hrun : run 10 [⟨0, 5⟩] = some { sampleWindow := 10, ticks := 1, lastTime := 5 } := rfl
  exact ⟨hrun, (reset_fresh_iff hrun).2 ⟨rfl, .inl rfl⟩⟩

/-- Two marks and a reset: the sample between them is still counted. -/
theorem reset_keeps_samples :
    ¬ ∀ m ∈ run 10 [⟨0, 1⟩, ⟨0, 2⟩], ∀ later : List Mark, (∀ x ∈ later, 0 < x.now) →
      later.Pairwise (·.now < ·.now) → (m.reset.runFrom later).map reading = (run 10 later).map reading := by
  intro h
  have hone : (run 10 [⟨0, 1⟩, ⟨0, 2⟩]).map sampleCount = some 1 := by decide +kernel
  obtain ⟨m, hm, hcount⟩ := Option.map_eq_some_iff.1 hone
  have hfresh := h m hm [] (by simp) List.Pairwise.nil
  have hzero : m.sampleCount = 0 := congrArg Reading.sampleCount (Option.some.inj hfresh)
  omega

end RateMeasure
end A17.Utils
