import A17.Utils.RateMeasure

/-!
# The window of a `RateMeasure`

Between two marks lies a `Sample`: the interval and the size of the mark that ends it. After any sequence
of marks the queues of the measure are read off one list of samples, the longest suffix of all samples
that fits the window (`Inv`). What lies before it no longer counts.
-/

namespace A17.Utils
open LongestSuffix

structure Mark where
  size : UInt64
  now : Int
deriving DecidableEq

def Mark.sample (last x : Mark) : Sample := ⟨x.now - last.now, x.size⟩

def samples : List Mark → List Sample
  | a :: b :: l => a.sample b :: samples (b :: l)
  | _ => []

theorem samples_concat {marks : List Mark} {a : Mark} (h : marks.getLast? = some a) (x : Mark) :
    samples (marks ++ [x]) = samples marks ++ [a.sample x] := by
  induction marks with
  | nil => cases h
  | cons b l ih =>
    cases l with
    | nil =>
      obtain rfl : b = a := by simpa using h
      rfl
    | cons c l => simp [samples, ← ih (by simpa using h)]

theorem samples_suffix (past marks : List Mark) : samples marks <:+ samples (past ++ marks) := by
  induction past with
  | nil => exact List.suffix_refl _
  | cons a past ih =>
    refine ih.trans ?_
    rw [List.cons_append]
    cases past ++ marks with
    | nil => exact List.suffix_refl _
    | cons b l => exact List.suffix_cons _ _

theorem samples_nonneg {marks : List Mark} (h : marks.Pairwise (·.now ≤ ·.now)) :
    ∀ s ∈ samples marks, 0 ≤ s.interval := by
  induction marks with
  | nil => simp [samples]
  | cons a l ih =>
    cases l with
    | nil => simp [samples]
    | cons b l =>
      rw [List.pairwise_cons] at h
      intro s hs
      rcases List.mem_cons.1 hs with rfl | hs
      · exact Int.sub_nonneg_of_le (h.1 b (by simp))
      · exact ih h.2 s hs

namespace RateMeasure

def run (w : Int) (marks : List Mark) : Option RateMeasure :=
  marks.foldlM (fun m x => m.markSize x.size x.now) { sampleWindow := w }

theorem run_concat (w : Int) (marks : List Mark) (x : Mark) :
    run w (marks ++ [x]) = (run w marks).bind fun m => m.markSize x.size x.now := by
  simp only [run, List.foldlM_append, List.foldlM_cons, List.foldlM_nil, bind_pure]
  rfl

/-- The `target_interval_` that a mark at `now` compares its interval to. -/
def nextTarget (m : RateMeasure) (now : Int) : Option Int :=
  if m.lastTime = 0 then none
  else (pushInterval { m with ticks := m.ticks + 1 } (now - m.lastTime)).map (·.findTarget.targetInterval)

/-- The difference and the sums that the mark computes are below `2 ^ 53`. -/
def Exact (m : RateMeasure) (x : Mark) : Prop :=
  ∀ target ∈ m.nextTarget x.now,
    |x.now - m.lastTime - target| < 2 ^ 53 ∧ m.jitterAcc + |x.now - m.lastTime - target| < 2 ^ 53 ∧
      m.sizeAcc.toNat + x.size.toNat < 2 ^ 53

instance (m : RateMeasure) (x : Mark) : Decidable (m.Exact x) :=
  inferInstanceAs (Decidable (∀ target ∈ m.nextTarget x.now, _))

/-! ### One mark -/

theorem findTarget_eq (m : RateMeasure) : ∃ avg target index,
    m.findTarget = { m with avgInterval := avg, targetInterval := target, currentTargetIndex := index } := by
  unfold findTarget
  split <;> exact ⟨_, _, _, rfl⟩

theorem markSize_of_pushInterval {m m₁ : RateMeasure} {x : Mark} (h0 : m.lastTime ≠ 0)
    (h : pushInterval { m with ticks := m.ticks + 1 } (x.now - m.lastTime) = some m₁) :
    m.markSize x.size x.now = some
        { (m₁.findTarget.pushJitter (x.now - m.lastTime)).pushSize x.size with lastTime := x.now } ∧
      m.nextTarget x.now = some m₁.findTarget.targetInterval := by
  constructor
  · rw [markSize]
    dsimp only
    rw [if_pos h0, h]
    rfl
  · rw [nextTarget, if_neg h0, h]
    rfl

section
variable {m : RateMeasure} {interval : Int} (hacc : m.jitterAcc = m.jitters.sum) (hpos : ∀ j ∈ m.jitters, 0 ≤ j)
  (hdiff : |interval - m.targetInterval| < 2 ^ 53)
  (hsum : m.jitterAcc + |interval - m.targetInterval| < 2 ^ 53)
include hacc hpos hdiff hsum

/-- With doubles that are exact, the jitter is an integer and so is the new sum. -/
theorem pushJitter_queue :
    ((m.pushJitter interval).jitters, (m.pushJitter interval).jitterAcc) =
      evictTo m.intervals.length (m.jitters ++ [|interval - m.targetInterval|])
        (m.jitterAcc + |interval - m.targetInterval|) := by
  have hnonneg : 0 ≤ m.jitterAcc := hacc ▸ List.sum_nonneg hpos
  have hj := abs_nonneg (interval - m.targetInterval)
  have hjitter : |Binary64.ofRat (interval - m.targetInterval : Int)| =
      ((|interval - m.targetInterval| : Int) : ℚ) := by
    rw [Binary64.ofRat_intCast hdiff, Int.cast_abs]
  have hadd : Binary64.ofRat (Binary64.ofRat m.jitterAcc + ((|interval - m.targetInterval| : Int) : ℚ)) =
      ((m.jitterAcc + |interval - m.targetInterval| : Int) : ℚ) := by
    rw [Binary64.ofRat_intCast (by rw [abs_of_nonneg hnonneg]; omega), ← Int.cast_add,
      Binary64.ofRat_intCast (by rw [abs_of_nonneg (by omega)]; exact hsum)]
  rw [pushJitter, hjitter, hadd, truncate_intCast, truncate_intCast]

theorem pushJitter_spec (hlen : m.intervals.length ≤ m.jitters.length + 1) :
    (m.pushJitter interval).jitters.length = m.intervals.length ∧
      (∀ j ∈ (m.pushJitter interval).jitters, 0 ≤ j) ∧
      (m.pushJitter interval).jitterAcc = (m.pushJitter interval).jitters.sum := by
  obtain ⟨hfst, hsnd⟩ := Prod.ext_iff.1 (pushJitter_queue hacc hpos hdiff hsum)
  dsimp only at hfst hsnd
  refine ⟨?_, ?_, ?_⟩
  · rw [hfst, evictTo_fst, List.length_drop, List.length_append, List.length_singleton]
    omega
  · intro j hj
    rw [hfst, evictTo_fst] at hj
    rcases List.mem_append.1 (List.mem_of_mem_drop hj) with hj | hj
    · exact hpos j hj
    · rw [List.mem_singleton.1 hj]
      exact abs_nonneg _
  · rw [hfst, hsnd]
    have hacc' : id (m.jitterAcc + |interval - m.targetInterval|) =
        ((m.jitters ++ [|interval - m.targetInterval|]).map id).sum := by
      simp [hacc]
    have hsub : ∀ acc x s : Int, id acc = id x + s → id (acc - x) = s := fun acc x s h => by
      simp only [id] at h ⊢
      omega
    simpa using evictTo_snd hsub m.intervals.length hacc'

end

theorem pushSize_spec {m : RateMeasure} {size : UInt64} (hacc : m.sizeAcc.toNat = (m.sizes.map UInt64.toNat).sum)
    (hsum : m.sizeAcc.toNat + size.toNat < 2 ^ 53) :
    (m.pushSize size).sizes = (m.sizes ++ [size]).drop (m.sizes.length + 1 - m.intervals.length) ∧
      (m.pushSize size).sizeAcc.toNat = ((m.pushSize size).sizes.map UInt64.toNat).sum := by
  have hadd : (m.sizeAcc + size).toNat = ((m.sizes ++ [size]).map UInt64.toNat).sum := by
    rw [UInt64.toNat_add, Nat.mod_eq_of_lt (by omega), hacc]
    simp
  constructor
  · rw [pushSize, evictTo_fst, List.length_append, List.length_singleton]
  · exact evictTo_snd toNat_sub_of_add_eq m.intervals.length hadd

/-! ### The invariant -/

structure Inv (w : Int) (marks : List Mark) (q : List Sample) (m : RateMeasure) : Prop where
  sampleWindow : m.sampleWindow = w
  lastTime : m.lastTime = (marks.getLast?.map Mark.now).getD 0
  within : Within Sample.interval w (samples marks) q
  intervals : m.intervals = q.map Sample.interval
  intervalAcc : m.intervalAcc = total Sample.interval q
  sizes : m.sizes = q.map Sample.size
  sizeAcc : m.sizeAcc.toNat = (m.sizes.map UInt64.toNat).sum
  jitters : m.jitters.length = q.length
  jitters_nonneg : ∀ j ∈ m.jitters, 0 ≤ j
  jitterAcc : m.jitterAcc = m.jitters.sum

theorem Inv.init {w : Int} (hw : 0 ≤ w) : Inv w [] [] { sampleWindow := w } :=
  ⟨rfl, rfl, ⟨List.suffix_refl _, hw, fun _ hs _ => hs⟩, rfl, rfl, rfl, rfl, rfl, by simp, rfl⟩

section
variable {w : Int} (hw : 0 ≤ w) {marks : List Mark} {q : List Sample} {m : RateMeasure} (h : Inv w marks q m) {x : Mark}
include h

theorem Inv.first (hm : marks = []) : ∃ m', m.markSize x.size x.now = some m' ∧ Inv w (marks ++ [x]) q m' := by
  have h0 : m.lastTime = 0 := by rw [h.lastTime, hm]; rfl
  have hs : samples (marks ++ [x]) = samples marks := by rw [hm]; rfl
  refine ⟨{ m with ticks := m.ticks + 1, lastTime := x.now }, by simp [markSize, h0], ?_⟩
  exact { h with lastTime := by simp, within := hs ▸ h.within }

include hw

theorem Inv.pushInterval {a : Mark} (ha : marks.getLast? = some a) :
    (m.pushInterval (x.now - m.lastTime)) = some { m with
      intervals := (trim Sample.interval w (q ++ [a.sample x])).map Sample.interval
      intervalAcc := total Sample.interval (trim Sample.interval w (q ++ [a.sample x])) } := by
  have hlast : m.lastTime = a.now := by rw [h.lastTime, ha]; rfl
  have hqueue : m.intervals ++ [x.now - a.now] = (q ++ [a.sample x]).map Sample.interval := by
    rw [h.intervals, List.map_append]
    rfl
  have hacc : m.intervalAcc + (x.now - a.now) = total Sample.interval (q ++ [a.sample x]) := by
    rw [h.intervalAcc, total_append, total_cons, total_nil, add_zero]
    rfl
  rw [RateMeasure.pushInterval, hlast, hqueue, hacc, h.sampleWindow, evictOver_total hw]
  rfl

/-- The first half of a mark settles the intervals and finds the target. -/
theorem Inv.findTarget {a : Mark} (ha : marks.getLast? = some a) (h0 : m.lastTime ≠ 0) :
    ∃ m₁ : RateMeasure,
      m.markSize x.size x.now =
        some { (m₁.pushJitter (x.now - m.lastTime)).pushSize x.size with lastTime := x.now } ∧
      m.nextTarget x.now = some m₁.targetInterval ∧ m₁.sampleWindow = w ∧
      m₁.intervals = (trim Sample.interval w (q ++ [a.sample x])).map Sample.interval ∧
      m₁.intervalAcc = total Sample.interval (trim Sample.interval w (q ++ [a.sample x])) ∧
      m₁.jitters = m.jitters ∧ m₁.jitterAcc = m.jitterAcc ∧ m₁.sizes = m.sizes ∧ m₁.sizeAcc = m.sizeAcc := by
  have hticked : Inv w marks q { m with ticks := m.ticks + 1 } := { h with }
  have hpush := hticked.pushInterval hw (x := x) ha
  dsimp only at hpush
  obtain ⟨avg, target, index, hfound⟩ := findTarget_eq { m with
    ticks := m.ticks + 1
    intervals := (trim Sample.interval w (q ++ [a.sample x])).map Sample.interval
    intervalAcc := total Sample.interval (trim Sample.interval w (q ++ [a.sample x])) }
  obtain ⟨hmark, hnext⟩ := markSize_of_pushInterval h0 hpush
  refine ⟨_, hmark, hnext, ?_⟩
  rw [hfound]
  exact ⟨h.sampleWindow, rfl, rfl, rfl, rfl, rfl, rfl⟩

theorem Inv.next {a : Mark} (ha : marks.getLast? = some a) (ha0 : a.now ≠ 0) (hle : a.now ≤ x.now) (hex : m.Exact x) :
    ∃ q' m', m.markSize x.size x.now = some m' ∧ Inv w (marks ++ [x]) q' m' := by
  have h0 : m.lastTime ≠ 0 := by rw [h.lastTime, ha]; exact ha0
  have hwithin := h.within.concat (x := a.sample x) (Int.sub_nonneg_of_le hle) hw
  have hsuffix := (within_trim Sample.interval hw (q ++ [a.sample x])).suffix
  obtain ⟨m₁, hmark, hnext, hwindow, hintervals, hacc, hj, hjacc, hs, hsacc⟩ := h.findTarget hw (x := x) ha h0
  generalize trim Sample.interval w (q ++ [a.sample x]) = q' at hwithin hsuffix hintervals hacc
  have hlen : q'.length ≤ q.length + 1 := by simpa using hsuffix.length_le
  obtain ⟨hdiff, hsum, hsize⟩ := hex _ hnext
  obtain ⟨hjlen, hjpos, hjsum⟩ := pushJitter_spec (by rw [hjacc, hj, h.jitterAcc])
    (by rw [hj]; exact h.jitters_nonneg) hdiff (by rw [hjacc]; exact hsum)
    (by rw [hintervals, hj, h.jitters, List.length_map]; exact hlen)
  obtain ⟨hsizes, hssum⟩ := pushSize_spec (m := m₁.pushJitter (x.now - m.lastTime))
    (show m₁.sizeAcc.toNat = (m₁.sizes.map UInt64.toNat).sum by rw [hs, hsacc]; exact h.sizeAcc)
    (show m₁.sizeAcc.toNat + x.size.toNat < 2 ^ 53 by rw [hsacc]; exact hsize)
  have hq : q' = (q ++ [a.sample x]).drop (q.length + 1 - q'.length) := by
    simpa using List.suffix_iff_eq_drop.1 hsuffix
  refine ⟨q', _, hmark, ?_⟩
  exact {
    sampleWindow := hwindow
    lastTime := by simp
    within := samples_concat ha x ▸ hwithin
    intervals := hintervals
    intervalAcc := hacc
    sizes := by
      refine hsizes.trans ?_
      show (m₁.sizes ++ [x.size]).drop (m₁.sizes.length + 1 - m₁.intervals.length) = _
      rw [hs, h.sizes, hintervals, List.length_map, List.length_map]
      conv_rhs => rw [hq, List.map_drop, List.map_append]
      rfl
    sizeAcc := hssum
    jitters := by
      refine hjlen.trans ?_
      rw [hintervals, List.length_map]
    jitters_nonneg := hjpos
    jitterAcc := hjsum }

end

/-! ### Whole runs -/

/-- Times that are positive and do not decrease, and sums that stay small enough. -/
structure Marks (w : Int) (marks : List Mark) : Prop where
  pos : ∀ x ∈ marks, 0 < x.now
  mono : marks.Pairwise (·.now ≤ ·.now)
  exact : ∀ past x, past ++ [x] <+: marks → ∀ m ∈ run w past, m.Exact x

theorem Marks.initial {w : Int} {past marks : List Mark} (h : Marks w marks) (hp : past <+: marks) : Marks w past :=
  ⟨fun x hx => h.pos x (hp.subset hx), h.mono.sublist hp.sublist, fun l x hl => h.exact l x (hl.trans hp)⟩

theorem Inv.run {w : Int} (hw : 0 ≤ w) {marks : List Mark} (hm : Marks w marks) :
    ∃ q m, RateMeasure.run w marks = some m ∧ Inv w marks q m := by
  induction marks using List.reverseRecOn with
  | nil => exact ⟨[], _, rfl, Inv.init hw⟩
  | append_singleton marks x ih =>
    obtain ⟨q, m, hrun, h⟩ := ih (hm.initial (List.prefix_append ..))
    have hmark : ∃ q' m', m.markSize x.size x.now = some m' ∧ Inv w (marks ++ [x]) q' m' := by
      cases ha : marks.getLast? with
      | none =>
        obtain ⟨m', hmark, h'⟩ := h.first (x := x) (List.getLast?_eq_none_iff.1 ha)
        exact ⟨q, m', hmark, h'⟩
      | some a =>
        have hmem := List.mem_of_getLast? ha
        have hpos := hm.pos a (by simp [hmem])
        have hle := (List.pairwise_append.1 hm.mono).2.2 a hmem x (by simp)
        exact h.next hw ha (by omega) hle (hm.exact marks x (List.prefix_refl _) m hrun)
    obtain ⟨q', m', hmark, h'⟩ := hmark
    exact ⟨q', m', by rw [run_concat, hrun]; exact hmark, h'⟩

section
variable {w : Int} {marks : List Mark} {q : List Sample} {m : RateMeasure} (h : Inv w marks q m)
include h

theorem Inv.sampleCount : m.sampleCount = q.length := by
  rw [RateMeasure.sampleCount, h.intervals, List.length_map]

theorem Inv.size : m.size = (q.map (·.size.toNat)).sum / q.length := by
  rw [RateMeasure.size, h.sizeAcc, h.sizes, List.length_map, List.map_map]
  cases q with
  | nil => rfl
  | cons s q => rfl

end

theorem within_latest {w : Int} {past latest : List Mark} {q : List Sample}
    (h : Within Sample.interval w (samples (past ++ latest)) q) (hmono : (past ++ latest).Pairwise (·.now ≤ ·.now))
    (hover : w < total Sample.interval (samples latest)) : Within Sample.interval w (samples latest) q := by
  obtain ⟨old, hold⟩ := samples_suffix past latest
  have hnonneg := samples_nonneg hmono
  rw [← hold] at h hnonneg
  exact h.of_append (fun s hs => hnonneg s (List.mem_append_left _ hs)) hover

/-- The queues after any marks; and two measures that took the same marks last, over more than the window,
count the same samples whatever came before. -/
theorem window_run {w : Int} (hw : 0 ≤ w) {marks : List Mark} (hm : Marks w marks) :
    ∃ m q, run w marks = some m ∧ Within Sample.interval w (samples marks) q ∧
      m.intervals = q.map Sample.interval ∧ m.intervalAcc = m.intervals.sum ∧
      m.sizes = q.map Sample.size ∧ m.sizeAcc.toNat = (m.sizes.map UInt64.toNat).sum ∧
      m.jitters.length = m.intervals.length ∧ m.jitterAcc = m.jitters.sum ∧
      m.sampleCount = q.length ∧ m.size = (q.map (·.size.toNat)).sum / q.length ∧
      ∀ past latest past' m', marks = past ++ latest → w < total Sample.interval (samples latest) →
        Marks w (past' ++ latest) → run w (past' ++ latest) = some m' →
        m'.sampleCount = m.sampleCount ∧ m'.size = m.size := by
  obtain ⟨q, m, hrun, h⟩ := Inv.run hw hm
  refine ⟨m, q, hrun, h.within, h.intervals, ?_, h.sizes, h.sizeAcc, ?_, h.jitterAcc, h.sampleCount, h.size, ?_⟩
  · rw [h.intervalAcc, h.intervals]
    rfl
  · rw [h.jitters, h.intervals, List.length_map]
  · intro past latest past' m' hmarks hover hm' hrun'
    subst hmarks
    obtain ⟨q', m'', hrun'', h'⟩ := Inv.run hw hm'
    obtain rfl : m'' = m' := Option.some.inj (hrun''.symm.trans hrun')
    obtain rfl : q = q' := (within_latest h.within hm.mono hover).unique (within_latest h'.within hm'.mono hover)
    rw [h'.sampleCount, h'.size, h.sampleCount, h.size]
    exact ⟨rfl, rfl⟩

def fourMarks : List Mark := [⟨50, 1⟩, ⟨60, 2⟩, ⟨70, 3⟩, ⟨80, 4⟩]

theorem marks_four : Marks 2 fourMarks := by
  refine ⟨by decide, by decide, fun past x hp m hm => ?_⟩
  have hcheck : ∀ k < 4, ∀ x ∈ fourMarks[k]?, ∀ m ∈ run 2 (fourMarks.take k), m.Exact x := by decide +kernel
  obtain ⟨rest, hrest⟩ := hp
  have hlt : past.length < 4 := by
    have := congrArg List.length hrest
    simp [fourMarks] at this
    omega
  exact hcheck past.length hlt x (by simp [← hrest]) m (by simpa [← hrest] using hm)

theorem window_run_four :
    ∃ m q, run 2 fourMarks = some m ∧ Within Sample.interval 2 (samples fourMarks) q ∧
      m.intervals = q.map Sample.interval ∧ m.sampleCount = 2 ∧ m.size = 75 := by
  obtain ⟨m, q, hrun, hwithin, hintervals, -⟩ := window_run (by decide) marks_four
  have hcount : (run 2 fourMarks).map (·.sampleCount) = some 2 := by decide +kernel
  have hsize : (run 2 fourMarks).map (·.size) = some 75 := by decide +kernel
  rw [hrun] at hcount hsize
  exact ⟨m, q, hrun, hwithin, hintervals, Option.some.inj hcount, Option.some.inj hsize⟩

end RateMeasure
end A17.Utils
