import A17.Ewok.DistanceRuns
import A17.Lib.Trilinear

/-!
# Reading distances

`getDistanceWithGrad` blends the distances of the eight voxels whose centres are around a point. Where all of them
are in the volume, what it returns is between their distances, and the gradient is the slope of what it returns.
-/

namespace A17.Ewok
open GridLoops GridWindow Trilinear
variable {POW : Nat} {K : Type}

namespace EuclideanDistanceRingBuffer
variable [Field K] [LinearOrder K] [FloorRing K]

/-- The voxel whose centre is the first corner around the point. -/
def cornerIdx (s : EuclideanDistanceRingBuffer POW K) (point : Fin 3 → K) : Vector3i :=
  s.distanceBuffer.getIdx fun i => point i - 0.5 * s.resolution

def cornerDiff (s : EuclideanDistanceRingBuffer POW K) (point : Fin 3 → K) : Fin 3 → K := fun i =>
  (point i - s.distanceBuffer.getPoint (s.cornerIdx point) i) / s.resolution

def corner (idx : Vector3i) (x y z : Fin 2) : Vector3i := fun i => idx i + (![(x : Int), y, z] i)

/-- `all_valid`. -/
def allValid (s : EuclideanDistanceRingBuffer POW K) (idx : Vector3i) : Bool :=
  (List.finRange 2).all fun x => (List.finRange 2).all fun y => (List.finRange 2).all fun z =>
    s.distanceBuffer.insideVolume (corner idx x y z)

/-- The distance, and what `grad` holds after the call. -/
def getDistanceWithGrad (s : EuclideanDistanceRingBuffer POW K) (point grad : Fin 3 → K) : K × (Fin 3 → K) :=
  let idx := s.cornerIdx point
  let diff := s.cornerDiff point
  let values := fun x y z => s.distanceBuffer.at_ (corner idx x y z)
  if s.allValid idx then
    let v00 := (1 - diff 0) * values 0 0 0 + diff 0 * values 1 0 0
    let v01 := (1 - diff 0) * values 0 0 1 + diff 0 * values 1 0 1
    let v10 := (1 - diff 0) * values 0 1 0 + diff 0 * values 1 1 0
    let v11 := (1 - diff 0) * values 0 1 1 + diff 0 * values 1 1 1
    let v0 := (1 - diff 1) * v00 + diff 1 * v10
    let v1 := (1 - diff 1) * v01 + diff 1 * v11
    let v := (1 - diff 2) * v0 + diff 2 * v1
    let grad0 := (1 - diff 2) * (1 - diff 1) * (values 1 0 0 - values 0 0 0)
    let grad0 := grad0 + (1 - diff 2) * diff 1 * (values 1 1 0 - values 0 1 0)
    let grad0 := grad0 + diff 2 * (1 - diff 1) * (values 1 0 1 - values 0 0 1)
    let grad0 := grad0 + diff 2 * diff 1 * (values 1 1 1 - values 0 1 1)
    (v, ![grad0 / s.resolution, ((1 - diff 2) * (v10 - v00) + diff 2 * (v11 - v01)) / s.resolution,
      (v1 - v0) / s.resolution])
  else (s.truncationDistance, grad)

variable {s : EuclideanDistanceRingBuffer POW K} {point grad : Fin 3 → K}

/-- The distances at the corners. -/
def corners (s : EuclideanDistanceRingBuffer POW K) (idx : Vector3i) (x y z : Fin 2) : K :=
  s.distanceBuffer.at_ (corner idx x y z)

theorem getDistanceWithGrad_eq (h : s.allValid (s.cornerIdx point) = true) : s.getDistanceWithGrad point grad =
    (value (s.corners (s.cornerIdx point)) (s.cornerDiff point),
      fun i => axisSlope (s.corners (s.cornerIdx point)) (s.cornerDiff point) i / s.resolution) := by
  unfold getDistanceWithGrad
  simp only [h, if_true]
  refine Prod.ext rfl (funext fun i => ?_)
  fin_cases i
  · show _ / _ = _ / _
    congr 1
    simp only [axisSlope, blend, corners]
    ring
  · rfl
  · rfl

theorem getDistanceWithGrad_of_invalid (h : ¬ s.allValid (s.cornerIdx point) = true) :
    s.getDistanceWithGrad point grad = (s.truncationDistance, grad) := by
  unfold getDistanceWithGrad
  simp only [h, if_false, Bool.false_eq_true]

section
variable (hres : 0 < s.resolution) (hdist : s.distanceBuffer.resolution = s.resolution)
include hres hdist

theorem cornerIdx_apply (point : Fin 3 → K) (i : Fin 3) : s.cornerIdx point i = ⌊point i / s.resolution - 0.5⌋ := by
  unfold cornerIdx RingBufferBase.getIdx
  rw [hdist, sub_div, mul_div_cancel_right₀ _ hres.ne']

/-- Where the point is between the corners is a remainder. -/
theorem cornerDiff_apply (point : Fin 3 → K) (i : Fin 3) :
    s.cornerDiff point i = point i / s.resolution - 0.5 - s.cornerIdx point i := by
  unfold cornerDiff RingBufferBase.getPoint
  rw [hdist, sub_div, mul_div_cancel_right₀ _ hres.ne']
  ring

/-- A step along an axis that stays between the same corners. -/
theorem cornerDiff_update (point : Fin 3 → K) (i : Fin 3) (t : K)
    (h : s.cornerIdx (Function.update point i (point i + t)) = s.cornerIdx point) :
    s.cornerDiff (Function.update point i (point i + t)) =
      Function.update (s.cornerDiff point) i (s.cornerDiff point i + t / s.resolution) := by
  funext j
  by_cases hj : j = i
  · subst hj
    rw [Function.update_self, cornerDiff_apply hres hdist, cornerDiff_apply hres hdist, h, Function.update_self,
      add_div]
    ring
  · rw [Function.update_of_ne hj, cornerDiff_apply hres hdist, cornerDiff_apply hres hdist, h, Function.update_of_ne hj]

variable [IsStrictOrderedRing K]

theorem cornerDiff_mem (point : Fin 3 → K) (i : Fin 3) : 0 ≤ s.cornerDiff point i ∧ s.cornerDiff point i ≤ 1 := by
  rw [cornerDiff_apply hres hdist, cornerIdx_apply hres hdist]
  exact ⟨Int.fract_nonneg _, (Int.fract_lt_one _).le⟩

/-- At the centre of a voxel it is the distance of that voxel. -/
theorem corner_getPoint (c : Vector3i) : s.cornerIdx (s.distanceBuffer.getPoint c) = c ∧
    s.cornerDiff (s.distanceBuffer.getPoint c) = fun _ => 0 := by
  have hcentre : ∀ i, s.distanceBuffer.getPoint c i / s.resolution - 0.5 = c i := by
    intro i
    unfold RingBufferBase.getPoint
    rw [hdist, mul_div_cancel_right₀ _ hres.ne', add_sub_cancel_right]
  have hidx : s.cornerIdx (s.distanceBuffer.getPoint c) = c := by
    funext i
    rw [cornerIdx_apply hres hdist, hcentre, Int.floor_intCast]
  refine ⟨hidx, funext fun i => ?_⟩
  rw [cornerDiff_apply hres hdist, hcentre, hidx, sub_self]

end

variable [IsStrictOrderedRing K]

/-- After a run that stays in the arrays, a point with all its eight corners in the volume has a distance between
theirs, which is theirs at the centres of the voxels, and a gradient by which the distance changes along each axis; any
other point has the truncation distance, and its gradient is left alone. -/
theorem getDistanceWithGrad_of_run {maxScalar resolution truncationDistance : K} (hres : 0 < resolution)
    (hmax : ((N POW : Int) : K) ≤ maxScalar) (sqrt : K → K) (ops : List (Op K))
    (hs : ops.foldlM (step maxScalar sqrt) (new POW maxScalar resolution truncationDistance) = some s)
    (point grad : Fin 3 → K) :
    if s.allValid (s.cornerIdx point) = true then
      (∀ lo hi, (∀ x y z, lo ≤ s.corners (s.cornerIdx point) x y z ∧ s.corners (s.cornerIdx point) x y z ≤ hi) →
        lo ≤ (s.getDistanceWithGrad point grad).1 ∧ (s.getDistanceWithGrad point grad).1 ≤ hi) ∧
      (∀ c, point = s.distanceBuffer.getPoint c →
        (s.getDistanceWithGrad point grad).1 = s.distanceBuffer.at_ c) ∧
      ∀ i t, s.cornerIdx (Function.update point i (point i + t)) = s.cornerIdx point →
        (s.getDistanceWithGrad (Function.update point i (point i + t)) grad).1 =
          (s.getDistanceWithGrad point grad).1 + t * (s.getDistanceWithGrad point grad).2 i
    else s.getDistanceWithGrad point grad = (truncationDistance, grad) := by
  have hvalid := (valid_new POW maxScalar resolution truncationDistance).run hmax hs
  have hres' : 0 < s.resolution := by rw [hvalid.resolution_eq]; exact hres
  have hdist : s.distanceBuffer.resolution = s.resolution := by
    rw [hvalid.distanceResolution_eq, hvalid.resolution_eq]
  split
  · next hall =>
    refine ⟨fun lo hi hcorner => ?_, fun c hc => ?_, fun i t hidx => ?_⟩
    · rw [getDistanceWithGrad_eq hall]
      exact value_mem (cornerDiff_mem hres' hdist point) hcorner
    · obtain ⟨hidx, hdiff⟩ := corner_getPoint hres' hdist c
      rw [getDistanceWithGrad_eq hall, hc, hidx, hdiff, value_zero]
      refine congrArg s.distanceBuffer.at_ (funext fun i => ?_)
      fin_cases i <;> simp [corner]
    · have hall' := hall
      rw [← hidx] at hall'
      rw [getDistanceWithGrad_eq hall, getDistanceWithGrad_eq hall', hidx, cornerDiff_update hres' hdist point i t hidx,
        value_update]
      ring
  · next hall => rw [getDistanceWithGrad_of_invalid hall, hvalid.truncationDistance_eq]

/-- Between an occupied voxel and its neighbours; with `id` for `sqrt`, the distances are squares. -/
theorem getDistanceWithGrad_of_run_hit :
    let hit : Op ℚ := .insertPointCloud [fun _ => 0] fun _ => 0
    let point : Fin 3 → ℚ := fun _ => 1 / 4
    ∃ s : EuclideanDistanceRingBuffer 1 ℚ,
      [hit, hit, .updateDistance].foldlM (step 100 id) (new 1 100 1 5) = some s ∧
        ∀ i t, s.cornerIdx (Function.update point i (point i + t)) = s.cornerIdx point →
          (s.getDistanceWithGrad (Function.update point i (point i + t)) fun _ => 0).1 = 3 / 4 + t * -1 := by
  intro hit point
  have hread : ([hit, hit, .updateDistance].foldlM (step 100 id) (new 1 100 1 5)).map
      (fun s : EuclideanDistanceRingBuffer 1 ℚ => (s.allValid (s.cornerIdx point),
        (s.getDistanceWithGrad point fun _ => 0).1, decide (∀ i, (s.getDistanceWithGrad point fun _ => 0).2 i = -1))) =
          some (true, 3 / 4, true) := by
    decide +kernel
  obtain ⟨s, hs, hs'⟩ := Option.map_eq_some_iff.1 hread
  simp only [Prod.mk.injEq, decide_eq_true_eq] at hs'
  obtain ⟨hall, hvalue, hgrad⟩ := hs'
  have h := getDistanceWithGrad_of_run (by norm_num) (by norm_num [N]) id _ hs point fun _ => 0
  rw [if_pos hall] at h
  refine ⟨s, hs, fun i t hidx => ?_⟩
  rw [h.2.2 i t hidx, hvalue, hgrad]

end EuclideanDistanceRingBuffer
end A17.Ewok
