import A17.Utils.BinSearch
import A17.Utils.RateMarks

/-!
# The target interval and the window

`isAtWindow` divides the window by the target interval and the ticks by the quotient. The target is the bin nearest
to the average interval, which is at most the window; but the bin may be above the average, so the target can be
above the window, and the quotient is 0 then. That never happens exactly if the bin of the window itself, searched for
from the last bin, is at most the window (`isAtWindow_safe_iff`).
-/

namespace A17.Utils
namespace RateMeasure
open Binary64

/-- `isAtWindow()`; `none` is the division by zero. The first division is signed, the second is not. -/
def isAtWindow (m : RateMeasure) : Option Bool :=
  if m.targetInterval = 0 then some false
  else
    let count := UInt64.ofInt (m.sampleWindow.tdiv m.targetInterval)
    if count = 0 then none else some (m.ticks % count == 0)

/-- Positive times that increase, as `int64_t`. -/
structure Ticking (marks : List Mark) : Prop where
  pos : ∀ x ∈ marks, 0 < x.now
  lt : ∀ x ∈ marks, x.now < 2 ^ 63
  mono : marks.Pairwise (·.now < ·.now)

/-! ### Words -/

theorem toNat_ofInt_of_lt {x : Int} (h0 : 0 ≤ x) (h : x < 2 ^ 63) : (UInt64.ofInt x).toNat = x.toNat := by
  rw [UInt64.ofInt, UInt64.toNat_ofNat']
  omega

theorem toInt_toInt64 (x : UInt64) :
    x.toInt64.toInt = if x.toNat < 2 ^ 63 then (x.toNat : Int) else (x.toNat : Int) - 2 ^ 64 := by
  have := BitVec.toInt_eq_toNat_cond x.toBitVec
  rw [UInt64.toNat_toBitVec] at this
  refine this.trans ?_
  by_cases h : x.toNat < 2 ^ 63
  · rw [if_pos h, if_pos (by omega)]
  · rw [if_neg h, if_neg (by omega)]
    norm_num

/-- A target above the window, or one that is negative as an `int64_t`. -/
theorem tdiv_lt_one {w : Int} (hw : 0 < w) {target : UInt64} (h : w < target.toNat) :
    target.toInt64.toInt ≠ 0 ∧ w.tdiv target.toInt64.toInt < 1 := by
  have htarget := target.toNat_lt
  rw [toInt_toInt64]
  split
  · rw [Int.tdiv_eq_zero_of_lt hw.le h]
    omega
  · have := Int.tdiv_nonpos_of_nonneg_of_nonpos hw.le (show (target.toNat : Int) - 2 ^ 64 ≤ 0 by omega)
    omega

theorem one_le_tdiv {w target : Int} (hpos : 1 ≤ target) (hle : target ≤ w) : 1 ≤ w.tdiv target := by
  rw [Int.tdiv_eq_ediv_of_nonneg (by omega)]
  exact (Int.le_ediv_iff_mul_le (by omega)).2 (by omega)

/-! ### One mark -/

theorem average_bounds {intervals : List Int} (hne : intervals ≠ []) (hpos : ∀ x ∈ intervals, 1 ≤ x)
    (hlt : intervals.sum < 2 ^ 63) :
    let avg := UInt64.ofInt intervals.sum / UInt64.ofNat intervals.length
    1 ≤ avg.toNat ∧ (avg.toNat : Int) ≤ intervals.sum := by
  have hlen : (intervals.length : Int) ≤ intervals.sum := by simpa using List.card_nsmul_le_sum intervals 1 hpos
  have hlen0 : 0 < intervals.length := List.length_pos_iff.2 hne
  have havg : (UInt64.ofInt intervals.sum / UInt64.ofNat intervals.length).toNat =
      intervals.sum.toNat / intervals.length := by
    rw [UInt64.toNat_div, toNat_ofInt_of_lt (by omega) hlt, UInt64.toNat_ofNat', Nat.mod_eq_of_lt (by omega)]
  dsimp only
  rw [havg]
  constructor
  · exact Nat.div_pos (by omega) hlen0
  · have := Nat.div_le_self intervals.sum.toNat intervals.length
    omega

/-- The intervals fill at most the window, and the target is between 1 and the window once there is one. -/
structure OnTarget (w : Int) (m : RateMeasure) : Prop where
  sampleWindow : m.sampleWindow = w
  intervalAcc : m.intervalAcc = m.intervals.sum
  intervals : ∀ x ∈ m.intervals, 1 ≤ x
  index : m.currentTargetIndex ≤ 9
  target : m.targetInterval = 0 ∨ 1 ≤ m.targetInterval ∧ m.targetInterval ≤ w

section
variable {w : Int} (hw : 0 < w) (hlt : w < 2 ^ 63)
  (hbin : ((nearestIntervalBin ofRat (UInt64.ofInt w) 9).value.toNat : Int) ≤ w)
include hw hlt hbin

theorem OnTarget.findTarget {m : RateMeasure} (h : OnTarget w m) (hsum : m.intervals.sum ≤ w) :
    OnTarget w m.findTarget := by
  by_cases hne : m.intervals = []
  · rwa [RateMeasure.findTarget, if_pos (by simp [hne])]
  rw [findTarget_of_ne_nil hne, h.intervalAcc]
  obtain ⟨hone, hle⟩ := average_bounds hne h.intervals (hsum.trans_lt hlt)
  dsimp only at hone hle ⊢
  generalize UInt64.ofInt m.intervals.sum / UInt64.ofNat m.intervals.length = avg at hone hle
  have hwindow := toNat_ofInt_of_lt hw.le hlt
  have havg : avg ≠ 0 := by
    rintro rfl
    exact absurd hone (by decide)
  obtain ⟨hpos, hmax⟩ := nearestIntervalBin_le havg (w := UInt64.ofInt w) (by omega) (by omega) (by omega) h.index
  have hindex := (nearestIntervalBin_travel ofRat havg h.index).1.le
  refine ⟨h.sampleWindow, rfl, h.intervals, hindex, .inr ?_⟩
  dsimp only
  rw [toInt_toInt64, if_pos (by omega)]
  omega

theorem OnTarget.markSize {m : RateMeasure} (h : OnTarget w m) {x : Mark}
    (hlast : m.lastTime ≠ 0 → m.lastTime < x.now) :
    ∃ m', m.markSize x.size x.now = some m' ∧ OnTarget w m' ∧ m'.lastTime = x.now := by
  rw [markSize_eq]
  by_cases h0 : m.lastTime = 0
  · rw [if_pos h0]
    exact ⟨_, rfl, ⟨h.sampleWindow, h.intervalAcc, h.intervals, h.index, h.target⟩, rfl⟩
  have hinterval := hlast h0
  rw [if_neg h0]
  have hsome := pushInterval_isSome (by rw [h.sampleWindow]; exact hw.le) h.intervalAcc (x.now - m.lastTime)
  obtain ⟨m₁, hpush⟩ := Option.isSome_iff_exists.1 hsome
  obtain ⟨intervals, hsuffix, hsum, rfl⟩ := pushInterval_some h.intervalAcc hpush
  have hpos : ∀ y ∈ intervals, 1 ≤ y := by
    intro y hy
    rcases List.mem_append.1 (hsuffix.subset hy) with hy | hy
    · exact h.intervals y hy
    · rw [List.mem_singleton.1 hy]
      omega
  have hfound : OnTarget w (RateMeasure.findTarget { m with intervals, intervalAcc := intervals.sum }) := by
    refine OnTarget.findTarget hw hlt hbin ⟨h.sampleWindow, rfl, hpos, h.index, h.target⟩ ?_
    rwa [← h.sampleWindow]
  rw [hpush]
  exact ⟨_, rfl, ⟨hfound.sampleWindow, hfound.intervalAcc, hfound.intervals, hfound.index, hfound.target⟩, rfl⟩

theorem OnTarget.runFrom {m : RateMeasure} (h : OnTarget w m) {marks : List Mark}
    (hlast : m.lastTime ≠ 0 → ∀ x ∈ marks, m.lastTime < x.now) (hmono : marks.Pairwise (·.now < ·.now)) :
    ∃ m', m.runFrom marks = some m' ∧ OnTarget w m' := by
  induction marks generalizing m with
  | nil => exact ⟨m, rfl, h⟩
  | cons x marks ih =>
    rw [List.pairwise_cons] at hmono
    obtain ⟨m₁, hmark, h₁, hnow⟩ := h.markSize hw hlt hbin (x := x) fun h0 => hlast h0 x (by simp)
    rw [runFrom_cons, hmark, Option.bind_some]
    refine ih h₁ ?_ hmono.2
    intro _ y hy
    rw [hnow]
    exact hmono.1 y hy

end

theorem OnTarget.isAtWindow {w : Int} {m : RateMeasure} (h : OnTarget w m) (hlt : w < 2 ^ 63) :
    m.isAtWindow.isSome ∧ (m.targetInterval ≠ 0 → 1 ≤ m.sampleWindow.tdiv m.targetInterval) := by
  rcases h.target with h0 | ⟨hpos, hle⟩
  · rw [RateMeasure.isAtWindow, if_pos h0]
    exact ⟨rfl, fun hne => absurd h0 hne⟩
  rw [h.sampleWindow]
  have hone := one_le_tdiv hpos hle
  have hself := Int.tdiv_le_self m.targetInterval (show 0 ≤ w by omega)
  refine ⟨?_, fun _ => hone⟩
  have hcount : UInt64.ofInt (w.tdiv m.targetInterval) ≠ 0 := by
    intro h0
    have := toNat_ofInt_of_lt (show 0 ≤ w.tdiv m.targetInterval by omega) (by omega)
    rw [h0, UInt64.toNat_zero] at this
    omega
  rw [RateMeasure.isAtWindow, if_neg (by omega), h.sampleWindow]
  dsimp only
  rw [if_neg hcount]
  rfl

/-! ### Marks that get above the window -/

/-- Two marks: the interval between them is the window's only one. -/
theorem run_two_marks {w now : Int} (hnow : now ≤ w) : ∃ m, run w [⟨0, 1⟩, ⟨0, 1 + now⟩] = some m ∧
    m.sampleWindow = w ∧ m.lastTime = 1 + now ∧ m.intervals = [now] ∧ m.intervalAcc = now ∧
    m.targetInterval = (nearestIntervalBin ofRat (UInt64.ofInt now) 0).value.toInt64.toInt ∧
    m.currentTargetIndex = (nearestIntervalBin ofRat (UInt64.ofInt now) 0).index := by
  set m₁ : RateMeasure := { sampleWindow := w, ticks := 1, lastTime := 1, intervals := [now], intervalAcc := now }
  have hpush : pushInterval { sampleWindow := w, ticks := 1, lastTime := 1 } (1 + now - 1) = some m₁ := by
    rw [add_sub_cancel_left]
    exact pushInterval_first rfl rfl hnow
  refine ⟨m₁.settle 0 (1 + now) (1 + now - 1), ?_, ?_⟩
  · show runFrom { sampleWindow := w } _ = _
    rw [runFrom_cons, markSize_eq, if_pos rfl, Option.bind_some, runFrom_cons, markSize_eq, if_neg (by simp)]
    show ((pushInterval { sampleWindow := w, ticks := 1, lastTime := 1 } (1 + now - 1)).map _).bind _ = _
    rw [hpush]
    rfl
  · obtain ⟨hi, hacc, hwindow, hlast, -⟩ := settle_queues m₁ 0 (1 + now) (1 + now - 1)
    obtain ⟨htarget, hindex⟩ := findTarget_single (m := m₁) rfl rfl
    exact ⟨hwindow, hlast, hi, hacc, htarget, hindex⟩

/-- An interval of 9 leaves the search at the last bin; one of the whole window then stands alone. -/
theorem run_three_marks {w : Int} (hw : 9 ≤ w) : ∃ m, run w [⟨0, 1⟩, ⟨0, 10⟩, ⟨0, 10 + w⟩] = some m ∧
    m.sampleWindow = w ∧
    m.targetInterval = (nearestIntervalBin ofRat (UInt64.ofInt w) 9).value.toInt64.toInt := by
  obtain ⟨m, hrun, hwindow, hlast, hi, hacc, -, hindex⟩ := run_two_marks hw
  have hnine : (nearestIntervalBin ofRat (UInt64.ofInt 9) 0).index = 9 := by decide +kernel
  rw [hnine] at hindex
  have hpush : m.pushInterval w = some { m with intervals := [w], intervalAcc := w } := by
    rw [pushInterval, hi, hacc, hwindow]
    simp [evictOver, show w < 9 + w by omega]
  have hmark : m.markSize 0 (10 + w) = some (settle { m with intervals := [w], intervalAcc := w } 0 (10 + w) w) := by
    rw [markSize_eq, if_neg (by omega), hlast, show 10 + w - (1 + 9) = w by omega, hpush]
    rfl
  refine ⟨settle { m with intervals := [w], intervalAcc := w } 0 (10 + w) w, ?_, hwindow, ?_⟩
  · rw [show [⟨0, 1⟩, ⟨0, 10⟩, ⟨0, 10 + w⟩] = ([⟨0, 1⟩, ⟨0, 1 + 9⟩] ++ [⟨0, 10 + w⟩] : List Mark) from rfl, run_concat,
      hrun]
    exact hmark
  · obtain ⟨htarget, -⟩ := findTarget_single (m := { m with intervals := [w], intervalAcc := w }) rfl rfl
    refine htarget.trans ?_
    dsimp only
    rw [hindex]

theorem small_window_bin :
    ∀ n < 9, (nearestIntervalBin ofRat (UInt64.ofInt (n : Nat)) 9).value.toNat ≤ n := by
  decide +kernel

theorem exists_above_window {w : Int} (hw : 0 < w) (hlt : w < 2 ^ 63)
    (hbin : w < (nearestIntervalBin ofRat (UInt64.ofInt w) 9).value.toNat) :
    ∃ marks m, Ticking marks ∧ run w marks = some m ∧ m.targetInterval ≠ 0 ∧
      m.sampleWindow.tdiv m.targetInterval < 1 := by
  rcases lt_or_ge w 9 with h9 | h9
  · -- the bins of a single digit
    obtain ⟨n, rfl⟩ := Int.eq_ofNat_of_zero_le hw.le
    have := small_window_bin n (by omega)
    omega
  rcases lt_or_ge w 9000000000000000000 with hmax | hmax
  · obtain ⟨m, hrun, hwindow, htarget⟩ := run_three_marks h9
    refine ⟨_, m, ⟨?_, ?_, ?_⟩, hrun, ?_⟩
    · simp
      omega
    · simp
      omega
    · simp
      omega
    · rw [hwindow, htarget]
      exact tdiv_lt_one hw hbin
  · -- the bin is `10 ^ 19`, which is not an `int64_t`
    obtain ⟨m, hrun, hwindow, -, -, -, htarget, -⟩ := run_two_marks hmax
    have hvalue : (nearestIntervalBin ofRat (UInt64.ofInt 9000000000000000000) 0).value = 10000000000000000000 := by
      decide +kernel
    refine ⟨_, m, ⟨by simp, by simp, by simp⟩, hrun, ?_⟩
    rw [hwindow, htarget, hvalue]
    exact tdiv_lt_one hw (hlt.trans (by decide))

/-- Whatever the marks, `isAtWindow` does not divide by zero and the window is at least a target interval long, exactly
if the bin of the window, searched for from the last bin, is at most the window. -/
theorem isAtWindow_safe_iff {w : Int} (hw : 0 < w) (hlt : w < 2 ^ 63) :
    (∀ marks, Ticking marks → ∃ m, run w marks = some m ∧ m.isAtWindow.isSome ∧
      (m.targetInterval ≠ 0 → 1 ≤ m.sampleWindow.tdiv m.targetInterval)) ↔
      ((nearestIntervalBin ofRat (UInt64.ofInt w) 9).value.toNat : Int) ≤ w := by
  constructor
  · intro h
    by_contra hbin
    obtain ⟨marks, m, hticking, hrun, hne, hquotient⟩ := exists_above_window hw hlt (not_le.1 hbin)
    obtain ⟨m', hrun', -, hone⟩ := h marks hticking
    obtain rfl : m = m' := Option.some.inj (hrun.symm.trans hrun')
    exact absurd (hone hne) (not_le.2 hquotient)
  · intro hbin marks hticking
    have hinit : OnTarget w { sampleWindow := w } := ⟨rfl, rfl, by simp, by simp, .inl rfl⟩
    obtain ⟨m, hrun, hm⟩ := hinit.runFrom hw hlt hbin (fun h0 => absurd rfl h0) hticking.mono
    exact ⟨m, hrun, hm.isAtWindow hlt⟩

/-- The default window of two seconds. -/
theorem isAtWindow_safe_two_seconds :
    (nearestIntervalBin ofRat (UInt64.ofInt 2000000000) 9).value.toNat = 2000000000 ∧
      ∀ marks, Ticking marks → ∃ m, run 2000000000 marks = some m ∧ m.isAtWindow.isSome ∧
        (m.targetInterval ≠ 0 → 1 ≤ m.sampleWindow.tdiv m.targetInterval) := by
  have hbin : (nearestIntervalBin ofRat (UInt64.ofInt 2000000000) 9).value.toNat = 2000000000 := by decide +kernel
  exact ⟨hbin, (isAtWindow_safe_iff (by decide) (by decide)).2 (by rw [hbin]; decide)⟩

/-- A window of 1.9 seconds and two marks that far apart: the target is 2 seconds. -/
theorem isAtWindow_divides_by_zero :
    ¬ ∀ w : Int, 0 < w → w < 2 ^ 63 → ∀ marks, Ticking marks → ∃ m, run w marks = some m ∧ m.isAtWindow.isSome ∧
      (m.targetInterval ≠ 0 → 1 ≤ m.sampleWindow.tdiv m.targetInterval) := by
  intro h
  have hticking : Ticking [⟨0, 1⟩, ⟨0, 1900000001⟩] := ⟨by decide, by decide, by decide⟩
  obtain ⟨m, hrun, hsome, -⟩ := h 1900000000 (by decide) (by decide) _ hticking
  have hnone : (run 1900000000 [⟨0, 1⟩, ⟨0, 1900000001⟩]).map isAtWindow = some none := by decide +kernel
  rw [hrun, Option.map_some, Option.some.injEq] at hnone
  rw [hnone] at hsome
  exact absurd hsome (by decide)

end RateMeasure
end A17.Utils
