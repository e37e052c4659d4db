import A17.Utils.RateWindow

/-!
# What a mark does

A mark puts the interval into the window and then finds the target and settles the other two queues
(`markSize_eq`). The ticks and `jitter_acc_` are counted and not read (`markSize_besides`).
-/

namespace A17.Utils
namespace RateMeasure

def runFrom (m : RateMeasure) (marks : List Mark) : Option RateMeasure :=
  marks.foldlM (fun m x => m.markSize x.size x.now) m

theorem runFrom_cons (m : RateMeasure) (x : Mark) (marks : List Mark) :
    m.runFrom (x :: marks) = (m.markSize x.size x.now).bind (·.runFrom marks) := rfl

/-! ### The intervals -/

theorem evictOver_sum {w : Int} {queue : List Int} {r : List Int × Int}
    (h : evictOver w queue queue.sum = some r) : r.1 <:+ queue ∧ r.2 = r.1.sum ∧ r.2 ≤ w := by
  induction queue with
  | nil =>
    rw [evictOver] at h
    split at h
    · cases h
    · next hle =>
      obtain rfl : ([], ([] : List Int).sum) = r := Option.some.inj h
      exact ⟨List.suffix_refl _, rfl, not_lt.1 hle⟩
  | cons x queue ih =>
    rw [evictOver] at h
    split at h
    · rw [List.sum_cons, add_sub_cancel_left] at h
      obtain ⟨hs, hsum, hle⟩ := ih h
      exact ⟨hs.trans (List.suffix_cons ..), hsum, hle⟩
    · next hle =>
      obtain rfl : (x :: queue, (x :: queue).sum) = r := Option.some.inj h
      exact ⟨List.suffix_refl _, rfl, not_lt.1 hle⟩

theorem evictOver_sum_isSome {w : Int} (hw : 0 ≤ w) (queue : List Int) : (evictOver w queue queue.sum).isSome := by
  induction queue with
  | nil =>
    rw [evictOver, if_neg (by simpa using hw)]
    rfl
  | cons x queue ih =>
    rw [evictOver]
    split
    · rwa [List.sum_cons, add_sub_cancel_left]
    · rfl

/-- The queues, after the interval went into the window. -/
theorem pushInterval_some {m m₁ : RateMeasure} {interval : Int} (hacc : m.intervalAcc = m.intervals.sum)
    (h : m.pushInterval interval = some m₁) : ∃ intervals : List Int, intervals <:+ m.intervals ++ [interval] ∧
      intervals.sum ≤ m.sampleWindow ∧ m₁ = { m with intervals, intervalAcc := intervals.sum } := by
  obtain ⟨r, hr, rfl⟩ := Option.map_eq_some_iff.1 h
  rw [hacc, show m.intervals.sum + interval = (m.intervals ++ [interval]).sum by simp] at hr
  obtain ⟨hsuffix, hsum, hle⟩ := evictOver_sum hr
  rw [hsum] at hle ⊢
  exact ⟨r.1, hsuffix, hle, rfl⟩

theorem pushInterval_isSome {m : RateMeasure} (hw : 0 ≤ m.sampleWindow) (hacc : m.intervalAcc = m.intervals.sum)
    (interval : Int) : (m.pushInterval interval).isSome := by
  rw [pushInterval, Option.isSome_map, hacc,
    show m.intervals.sum + interval = (m.intervals ++ [interval]).sum by simp]
  exact evictOver_sum_isSome hw _

theorem pushInterval_first {m : RateMeasure} (hi : m.intervals = []) (hacc : m.intervalAcc = 0) {interval : Int}
    (h : interval ≤ m.sampleWindow) :
    m.pushInterval interval = some { m with intervals := [interval], intervalAcc := interval } := by
  rw [pushInterval, hi, hacc, List.nil_append, zero_add, evictOver, if_neg (not_lt.2 h)]
  rfl

/-! ### The target -/

theorem findTarget_of_ne_nil {m : RateMeasure} (h : m.intervals ≠ []) : m.findTarget =
    let avg := UInt64.ofInt m.intervalAcc / UInt64.ofNat m.intervals.length
    { m with
      avgInterval := avg.toInt64.toInt
      targetInterval := (nearestIntervalBin Binary64.ofRat avg m.currentTargetIndex).value.toInt64.toInt
      currentTargetIndex := (nearestIntervalBin Binary64.ofRat avg m.currentTargetIndex).index } := by
  rw [findTarget, if_neg (by simpa using h)]

/-- One interval in the window: it is its own average. -/
theorem findTarget_single {m : RateMeasure} {interval : Int} (hi : m.intervals = [interval])
    (hacc : m.intervalAcc = interval) :
    let bin := nearestIntervalBin Binary64.ofRat (UInt64.ofInt interval) m.currentTargetIndex
    m.findTarget.targetInterval = bin.value.toInt64.toInt ∧ m.findTarget.currentTargetIndex = bin.index := by
  have havg : UInt64.ofInt m.intervalAcc / UInt64.ofNat m.intervals.length = UInt64.ofInt interval := by
    rw [hi, hacc]
    exact UInt64.div_one
  rw [findTarget_of_ne_nil (by simp [hi]), havg]
  exact ⟨rfl, rfl⟩

/-! ### The ticks and the sum of the jitters -/

/-- The measure with other ticks and another sum of jitters. -/
def besides (m : RateMeasure) (ticks : UInt64) (jitterAcc : Int) : RateMeasure := { m with ticks, jitterAcc }

theorem pushInterval_besides (m : RateMeasure) (ticks : UInt64) (jitterAcc interval : Int) :
    (m.besides ticks jitterAcc).pushInterval interval =
      (m.pushInterval interval).map (·.besides ticks jitterAcc) := by
  rw [pushInterval, pushInterval, Option.map_map]
  rfl

theorem findTarget_besides (m : RateMeasure) (ticks : UInt64) (jitterAcc : Int) :
    (m.besides ticks jitterAcc).findTarget = m.findTarget.besides ticks jitterAcc := by
  rw [findTarget, findTarget]
  by_cases h : m.intervals.isEmpty = true
  · rw [if_pos h, if_pos (show (m.besides ticks jitterAcc).intervals.isEmpty = true from h)]
  · rw [if_neg h, if_neg (show ¬ (m.besides ticks jitterAcc).intervals.isEmpty = true from h)]
    rfl

theorem pushJitter_besides (m : RateMeasure) (ticks : UInt64) (jitterAcc interval : Int) :
    (m.besides ticks jitterAcc).pushJitter interval =
      (m.pushJitter interval).besides ticks ((m.besides m.ticks jitterAcc).pushJitter interval).jitterAcc := by
  unfold pushJitter besides
  simp only [evictTo_fst]

theorem pushSize_besides (m : RateMeasure) (ticks : UInt64) (jitterAcc : Int) (size : UInt64) :
    (m.besides ticks jitterAcc).pushSize size = (m.pushSize size).besides ticks jitterAcc := rfl

/-- The second half of a mark, once the interval is in the window. -/
def settle (m : RateMeasure) (size : UInt64) (now interval : Int) : RateMeasure :=
  { (m.findTarget.pushJitter interval).pushSize size with ticks := m.ticks + 1, lastTime := now }

theorem findTarget_besides_self (m : RateMeasure) :
    m.findTarget.besides m.findTarget.ticks m.jitterAcc = m.findTarget := by
  obtain ⟨avg, target, index, hfound⟩ := findTarget_eq m
  rw [hfound]
  rfl

theorem markSize_eq (m : RateMeasure) (size : UInt64) (now : Int) : m.markSize size now =
    if m.lastTime = 0 then some { m with ticks := m.ticks + 1, lastTime := now }
    else (m.pushInterval (now - m.lastTime)).map (·.settle size now (now - m.lastTime)) := by
  rw [markSize]
  dsimp only
  by_cases h : m.lastTime = 0
  · rw [if_pos h, if_neg (not_not.2 h)]
  · rw [if_neg h, if_pos h, pushInterval, pushInterval, Option.map_map, Option.map_map]
    congr 1
    funext r
    -- the ticks are counted before or after
    have hself := findTarget_besides_self { m with intervals := r.1, intervalAcc := r.2 }
    have hcount := congrArg (fun m' => pushSize (pushJitter m' (now - m.lastTime)) size)
      (findTarget_besides { m with intervals := r.1, intervalAcc := r.2 } (m.ticks + 1) m.jitterAcc)
    dsimp only at hself hcount
    rw [pushJitter_besides, pushSize_besides, hself] at hcount
    exact congrArg (fun m' : RateMeasure => { m' with lastTime := now }) hcount

theorem settle_besides (m : RateMeasure) (ticks : UInt64) (jitterAcc : Int) (size : UInt64) (now interval : Int) :
    (m.besides ticks jitterAcc).settle size now interval = (m.settle size now interval).besides (ticks + 1)
      ((m.findTarget.besides m.findTarget.ticks jitterAcc).pushJitter interval).jitterAcc := by
  rw [settle, findTarget_besides, pushJitter_besides, pushSize_besides]
  rfl

theorem markSize_besides (m : RateMeasure) (ticks : UInt64) (jitterAcc : Int) (size : UInt64) (now : Int) :
    (m.besides ticks jitterAcc).markSize size now =
      if m.lastTime = 0 then some ({ m with lastTime := now }.besides (ticks + 1) jitterAcc)
      else (m.pushInterval (now - m.lastTime)).map fun m₁ =>
        (m₁.settle size now (now - m.lastTime)).besides (ticks + 1)
          ((m₁.findTarget.besides m₁.findTarget.ticks jitterAcc).pushJitter (now - m.lastTime)).jitterAcc := by
  rw [markSize_eq]
  by_cases h : m.lastTime = 0
  · rw [if_pos h, if_pos (show (m.besides ticks jitterAcc).lastTime = 0 from h)]
    rfl
  · rw [if_neg h, if_neg (show ¬ (m.besides ticks jitterAcc).lastTime = 0 from h)]
    show ((m.besides ticks jitterAcc).pushInterval (now - m.lastTime)).map _ = _
    rw [pushInterval_besides, Option.map_map]
    congr 1
    funext m₁
    exact settle_besides m₁ ticks jitterAcc size now (now - m.lastTime)

/-! ### The queues after the whole mark -/

theorem length_evictTo {α : Type} [Sub α] {count : Nat} {queue : List α} (h : count ≤ queue.length) (acc : α) :
    (evictTo count queue acc).1.length = count := by
  rw [evictTo_fst, List.length_drop]
  omega

theorem settle_queues (m : RateMeasure) (size : UInt64) (now interval : Int) :
    (m.settle size now interval).intervals = m.intervals ∧
      (m.settle size now interval).intervalAcc = m.intervalAcc ∧
      (m.settle size now interval).sampleWindow = m.sampleWindow ∧
      (m.settle size now interval).lastTime = now ∧
      ((m.settle size now interval).sizes, (m.settle size now interval).sizeAcc) =
        evictTo m.intervals.length (m.sizes ++ [size]) (m.sizeAcc + size) ∧
      ∃ jitter acc, ((m.settle size now interval).jitters, (m.settle size now interval).jitterAcc) =
        evictTo m.intervals.length (m.jitters ++ [jitter]) acc := by
  obtain ⟨avg, target, index, hfound⟩ := findTarget_eq m
  rw [settle, hfound]
  exact ⟨rfl, rfl, rfl, rfl, rfl, _, _, rfl⟩

end RateMeasure
end A17.Utils
