import A17.Ewok.EdRingBuffer

/-!
# Runs of the distance ring buffer

The box that `compute_edt3d` goes over is the updated one and a margin. A move makes it the whole volume, so the first
update after a move leaves each voxel with its distance to the nearest occupied voxel of the volume (`exact_of_run`).
`setOffset` leaves the updated box where it was, so an update after it may write outside of the arrays of `fill_edt`;
with a move in between it does not (`isSome_run`).
-/

namespace A17.Ewok
open GridLoops GridWindow
variable {POW : Nat} {K : Type}

/-- The squared distance of `c` to the nearest of the obstacles, or the greatest scalar when there are none. -/
def Clearance [Field K] (maxScalar : K) (obstacles : Set Vector3i) (c : Vector3i) (v : K) : Prop :=
  (∃ m : Int, IsLeast (sqDist c '' obstacles) m ∧ v = m) ∨ obstacles = ∅ ∧ v = maxScalar

theorem sqDist_add (a c d : Vector3i) : sqDist (a + c) (a + d) = sqDist c d := by
  unfold sqDist
  refine Finset.sum_congr rfl fun i _ => ?_
  rw [Pi.add_apply, Pi.add_apply, add_sub_add_left_eq_sub]

theorem Clearance.add [Field K] {maxScalar v : K} {obstacles : Set Vector3i} {a d : Vector3i}
    (h : Clearance maxScalar {e | a + e ∈ obstacles} d v) : Clearance maxScalar obstacles (a + d) v := by
  have himage : sqDist d '' {e | a + e ∈ obstacles} = sqDist (a + d) '' obstacles := by
    ext n
    constructor
    · rintro ⟨e, he, rfl⟩
      exact ⟨a + e, he, sqDist_add a d e⟩
    · rintro ⟨e, he, rfl⟩
      refine ⟨e - a, ?_, ?_⟩
      · show a + (e - a) ∈ obstacles
        rwa [add_sub_cancel]
      · rw [← sqDist_add a, add_sub_cancel]
  rcases h with ⟨m, hm, rfl⟩ | ⟨hnone, rfl⟩
  · exact .inl ⟨m, himage ▸ hm, rfl⟩
  · refine .inr ⟨Set.eq_empty_iff_forall_notMem.2 fun e he => ?_, rfl⟩
    have hmem : e - a ∈ {e | a + e ∈ obstacles} := by
      show a + (e - a) ∈ obstacles
      rwa [add_sub_cancel]
    rw [hnone] at hmem
    exact hmem

namespace EuclideanDistanceRingBuffer
variable [Field K] [LinearOrder K] [IsStrictOrderedRing K] [FloorRing K] {s t : EuclideanDistanceRingBuffer POW K}
  {maxScalar : K} {sqrt : K → K} {c d : Vector3i}

/-- The occupied voxels of the box, by their place in the volume. -/
def boxObstacles (s : EuclideanDistanceRingBuffer POW K) : Set Vector3i :=
  {e | InBox s.minVec s.maxVec e ∧ s.occupancyBuffer.occupiedAt (s.distanceBuffer.offset + e) = true}

omit [IsStrictOrderedRing K] in
theorem sqDist_le (hc : InBox s.minVec s.maxVec c) (hd : InBox s.minVec s.maxVec d) :
    sqDist c d ≤ 3 * ((N POW : Int) * N POW) := by
  have haxis : ∀ i, (c i - d i) * (c i - d i) ≤ (N POW : Int) * N POW := by
    intro i
    have := s.box_bounds i
    have := hc i
    have := hd i
    rw [← abs_mul_abs_self (c i - d i)]
    exact mul_self_le_mul_self (abs_nonneg _) (abs_le.2 ⟨by omega, by omega⟩)
  refine (Finset.sum_le_sum fun i _ => haxis i).trans ?_
  rw [Finset.sum_const, Finset.card_univ, Fintype.card_fin, nsmul_eq_mul]
  rfl

/-- What the passes find for a voxel is its clearance from the obstacles of the box. -/
theorem clearance_of_isLeast (hmax : ((3 * ((N POW : Int) * N POW) : Int) : K) ≤ maxScalar)
    (hd : InBox s.minVec s.maxVec d) {v : K}
    (hv : IsLeast (boxValues (s.cost maxScalar) s.minVec s.maxVec d) v) : Clearance maxScalar s.boxObstacles d v := by
  have hcost : ∀ e, e ∈ s.boxObstacles → s.cost maxScalar e = 0 := fun e he => if_pos he.2
  have hfree : ∀ e, InBox s.minVec s.maxVec e → e ∉ s.boxObstacles → s.cost maxScalar e = maxScalar :=
    fun e he hnot => if_neg fun hocc => hnot ⟨he, hocc⟩
  have hle : ∀ e ∈ s.boxObstacles, v ≤ (sqDist d e : Int) := by
    intro e he
    have h := hv.2 ⟨e, he.1, rfl⟩
    rwa [hcost e he, add_zero] at h
  rcases s.boxObstacles.eq_empty_or_nonempty with hnone | ⟨e0, he0⟩
  · refine .inr ⟨hnone, le_antisymm ?_ ?_⟩
    · have hself : sqDist d d = 0 := by simp [sqDist]
      have h := hv.2 ⟨d, hd, rfl⟩
      rwa [hself, Int.cast_zero, zero_add, hfree d hd (by rw [hnone]; exact Set.notMem_empty d)] at h
    · obtain ⟨e, he, heq⟩ := hv.1
      rw [hfree e he (by rw [hnone]; exact Set.notMem_empty e)] at heq
      rw [heq]
      exact le_add_of_nonneg_left (Int.cast_nonneg (sqDist_nonneg d e))
  · -- a voxel that is free offers more than any obstacle does
    have hattained : ∃ e ∈ s.boxObstacles, v = (sqDist d e : Int) := by
      obtain ⟨e, he, heq⟩ := hv.1
      by_cases hocc : e ∈ s.boxObstacles
      · rw [hcost e hocc, add_zero] at heq
        exact ⟨e, hocc, heq⟩
      · refine ⟨e0, he0, le_antisymm (hle e0 he0) ?_⟩
        have hfar : ((sqDist d e0 : Int) : K) ≤ maxScalar := (Int.cast_le.2 (sqDist_le hd he0.1)).trans hmax
        rw [heq, hfree e he hocc]
        exact hfar.trans (le_add_of_nonneg_left (Int.cast_nonneg (sqDist_nonneg d e)))
    obtain ⟨e, he, rfl⟩ := hattained
    refine .inl ⟨sqDist d e, ⟨⟨e, he, rfl⟩, ?_⟩, rfl⟩
    rintro m ⟨e', he', rfl⟩
    exact Int.cast_le.1 (hle e' he')

/-- The occupied voxels of the volume. -/
def obstacles (s : EuclideanDistanceRingBuffer POW K) : Set Vector3i :=
  {e | Inside (N POW) s.distanceBuffer.offset e ∧ s.occupancyBuffer.occupiedAt e = true}

/-- Each voxel of the volume has its distance to the nearest occupied voxel of the volume, or what the truncation
makes of it. -/
def Exact (maxScalar : K) (sqrt : K → K) (s : EuclideanDistanceRingBuffer POW K) : Prop :=
  ∀ c, Inside (N POW) s.distanceBuffer.offset c → ∃ v, Clearance maxScalar s.obstacles c v ∧
    s.distanceBuffer.at_ c = min (s.resolution * sqrt v) s.truncationDistance

omit [IsStrictOrderedRing K] in
theorem inBox_of_whole (hlo : s.minVec = fun _ => 0) (hhi : s.maxVec = fun _ => (N POW : Int) - 1) :
    InBox s.minVec s.maxVec d ↔ Inside (N POW) s.distanceBuffer.offset (s.distanceBuffer.offset + d) := by
  rw [hlo, hhi]
  refine forall_congr' fun i => ?_
  simp only [Pi.add_apply]
  omega

theorem Transformed.exact (h : Transformed maxScalar sqrt s t)
    (hmax : ((3 * ((N POW : Int) * N POW) : Int) : K) ≤ maxScalar) (hlo : s.minVec = fun _ => 0)
    (hhi : s.maxVec = fun _ => (N POW : Int) - 1) : t.Exact maxScalar sqrt := by
  intro c hc
  have hobstacles : s.boxObstacles = {e | s.distanceBuffer.offset + e ∈ t.obstacles} := by
    ext e
    unfold boxObstacles obstacles
    rw [Set.mem_ofPred_eq, Set.mem_ofPred_eq, Set.mem_ofPred_eq, inBox_of_whole hlo hhi, h.offset_eq,
      h.occupancyBuffer_eq]
    rfl
  obtain ⟨d, rfl⟩ : ∃ d, c = s.distanceBuffer.offset + d := ⟨c - s.distanceBuffer.offset, (add_sub_cancel _ _).symm⟩
  rw [h.offset_eq] at hc
  obtain ⟨v, hv, hat⟩ := h.inner d ((inBox_of_whole hlo hhi).2 hc)
  refine ⟨v, ?_, ?_⟩
  · have hclear := clearance_of_isLeast hmax ((inBox_of_whole hlo hhi).2 hc) hv
    rw [hobstacles] at hclear
    exact hclear.add
  · rw [hat, h.resolution_eq, h.truncationDistance_eq]

/-! ### Runs -/

inductive Op (K : Type)
  | insertPointCloud (cloud : List (Fin 3 → K)) (origin : Fin 3 → K)
  | decay
  | setOffset (off : Vector3i)
  | moveVolume (direction : Vector3i)
  | updateDistance

/-- `updateDistance` is `compute_edt3d`. -/
def step (maxScalar : K) (sqrt : K → K) (s : EuclideanDistanceRingBuffer POW K) :
    Op K → Option (EuclideanDistanceRingBuffer POW K)
  | .insertPointCloud cloud origin => some (s.insertPointCloud maxScalar cloud origin)
  | .decay => some s.decay
  | .setOffset off => some (s.setOffset off)
  | .moveVolume direction => some (s.moveVolume direction)
  | .updateDistance => s.computeEdt3d maxScalar sqrt

/-- What holds in every state. -/
structure Valid (resolution truncationDistance : K) (s : EuclideanDistanceRingBuffer POW K) : Prop where
  resolution_eq : s.resolution = resolution
  truncationDistance_eq : s.truncationDistance = truncationDistance
  distanceResolution_eq : s.distanceBuffer.resolution = resolution
  occupancy : s.occupancyBuffer.Valid resolution
  offset_eq : s.distanceBuffer.offset = s.occupancyBuffer.occupancyBuffer.offset

variable {resolution truncationDistance : K}

theorem Valid.step (hmax : ((N POW : Int) : K) ≤ maxScalar) (h : s.Valid resolution truncationDistance) {op : Op K}
    (ht : s.step maxScalar sqrt op = some t) : t.Valid resolution truncationDistance := by
  obtain ⟨hres, htrunc, hdist, hocc, hoffset⟩ := h
  cases op with
  | insertPointCloud cloud origin =>
    obtain rfl := Option.some.inj ht
    have hframe := RaycastRingBuffer.frame_insertPointCloud s.occupancyBuffer maxScalar cloud origin
    exact ⟨hres, htrunc, hdist, hocc.step maxScalar (.insertPointCloud cloud origin),
      hoffset.trans hframe.occupancyOffset_eq.symm⟩
  | decay =>
    obtain rfl := Option.some.inj ht
    have hframe := (RaycastRingBuffer.decaying hocc.clear).frame
    exact ⟨hres, htrunc, hdist, hocc.step maxScalar .decay, hoffset.trans hframe.occupancyOffset_eq.symm⟩
  | setOffset off =>
    obtain rfl := Option.some.inj ht
    exact ⟨hres, htrunc, hdist, hocc.step maxScalar (.setOffset off), rfl⟩
  | moveVolume direction =>
    obtain rfl := Option.some.inj ht
    refine ⟨hres, htrunc, (RaycastRingBuffer.resolution_moveVolume _ _).trans hdist, hocc.moveVolume direction, ?_⟩
    show (s.distanceBuffer.moveVolume direction).offset =
      (s.occupancyBuffer.moveVolume direction).occupancyBuffer.offset
    rw [(RaycastRingBuffer.moveVolume_buffers _ _).2.1, RingBufferBase.offset_moveVolume,
      RingBufferBase.offset_moveVolume, hoffset]
  | updateDistance =>
    have hupdate : s.computeEdt3d maxScalar sqrt = some t := ht
    have hin : s.InArrays := (computeEdt3d_isSome_iff hmax sqrt s).1 (by rw [hupdate]; rfl)
    obtain ⟨t', ht', htransformed⟩ := computeEdt3d_spec hmax sqrt hin
    obtain rfl := Option.some.inj (hupdate.symm.trans ht')
    refine ⟨htransformed.resolution_eq.trans hres, htransformed.truncationDistance_eq.trans htrunc,
      htransformed.distanceResolution_eq.trans hdist, ?_, ?_⟩
    · rw [htransformed.occupancyBuffer_eq]
      exact hocc.step maxScalar .clearUpdatedMinMax
    · rw [htransformed.offset_eq, htransformed.occupancyBuffer_eq]
      exact hoffset

/-- An operation that takes nothing out of the updated box. -/
def Op.KeepsBox : Op K → Prop
  | .insertPointCloud _ _ => True
  | .decay => True
  | .setOffset _ => False
  | .moveVolume _ => True
  | .updateDistance => False

omit [IsStrictOrderedRing K] in
/-- What is not an update is done. -/
theorem step_keepsBox (sqrt : K → K) (s : EuclideanDistanceRingBuffer POW K) {op : Op K} (hop : op.KeepsBox) :
    ∃ t, s.step maxScalar sqrt op = some t := by
  cases op with
  | insertPointCloud cloud origin => exact ⟨_, rfl⟩
  | decay => exact ⟨_, rfl⟩
  | setOffset off => exact absurd hop id
  | moveVolume direction => exact ⟨_, rfl⟩
  | updateDistance => exact absurd hop id

omit [IsStrictOrderedRing K] in
theorem CoversVolume.step (h : s.Valid resolution truncationDistance) (hcovers : s.occupancyBuffer.CoversVolume)
    {op : Op K} (hop : op.KeepsBox) (ht : s.step maxScalar sqrt op = some t) : t.occupancyBuffer.CoversVolume := by
  have hkeep : ∀ u : RaycastRingBuffer POW K, RaycastRingBuffer.Frame s.occupancyBuffer u →
      RaycastRingBuffer.Widens s.occupancyBuffer u → u.CoversVolume := by
    intro u hframe hwide i
    rw [hframe.occupancyOffset_eq]
    exact ⟨(hwide i).1.trans (hcovers i).1, (hcovers i).2.trans (hwide i).2⟩
  cases op with
  | insertPointCloud cloud origin =>
    obtain rfl := Option.some.inj ht
    exact hkeep _ (RaycastRingBuffer.frame_insertPointCloud ..)
      (RaycastRingBuffer.widens_insertPointCloud _ _ _ _)
  | decay =>
    obtain rfl := Option.some.inj ht
    have hdecaying := RaycastRingBuffer.decaying h.occupancy.clear
    exact hkeep _ hdecaying.frame hdecaying.widens
  | setOffset off => exact absurd hop id
  | moveVolume direction =>
    obtain rfl := Option.some.inj ht
    exact RaycastRingBuffer.moveVolume_coversVolume _ _
  | updateDistance => exact absurd hop id

omit [LinearOrder K] [IsStrictOrderedRing K] [FloorRing K] in
theorem valid_new (POW : Nat) (maxScalar resolution truncationDistance : K) :
    (new POW maxScalar resolution truncationDistance).Valid resolution truncationDistance :=
  ⟨rfl, rfl, rfl, RaycastRingBuffer.valid_new POW resolution, rfl⟩

theorem Valid.run (hmax : ((N POW : Int) : K) ≤ maxScalar) (h : s.Valid resolution truncationDistance)
    {ops : List (Op K)} (ht : ops.foldlM (EuclideanDistanceRingBuffer.step maxScalar sqrt) s = some t) :
    t.Valid resolution truncationDistance := by
  induction ops generalizing s with
  | nil =>
    obtain rfl := Option.some.inj ht
    exact h
  | cons op ops ih =>
    rw [List.foldlM_cons, Option.bind_eq_bind, Option.bind_eq_some_iff] at ht
    obtain ⟨u, hu, hrest⟩ := ht
    exact ih (h.step hmax hu) hrest

theorem CoversVolume.run (hmax : ((N POW : Int) : K) ≤ maxScalar) (sqrt : K → K)
    (h : s.Valid resolution truncationDistance) (hcovers : s.occupancyBuffer.CoversVolume) {ops : List (Op K)}
    (hops : ∀ op ∈ ops, op.KeepsBox) :
    ∃ t, ops.foldlM (EuclideanDistanceRingBuffer.step maxScalar sqrt) s = some t ∧
      t.Valid resolution truncationDistance ∧ t.occupancyBuffer.CoversVolume := by
  induction ops generalizing s with
  | nil => exact ⟨s, rfl, h, hcovers⟩
  | cons op ops ih =>
    obtain ⟨t, ht⟩ := s.step_keepsBox sqrt (hops op List.mem_cons_self)
    have hcovers' := CoversVolume.step h hcovers (hops op List.mem_cons_self) ht
    obtain ⟨u, hu, hrest⟩ := ih (h.step hmax ht) hcovers' fun op hop => hops op (List.mem_cons_of_mem _ hop)
    refine ⟨u, ?_, hrest⟩
    rw [List.foldlM_cons, ht]
    exact hu

/-- The updated box begins in the volume, or before it. -/
def Placed (s : EuclideanDistanceRingBuffer POW K) : Prop :=
  ∀ i, s.occupancyBuffer.updatedMin i ≤ s.distanceBuffer.offset i + (N POW - 1)

omit [Field K] [LinearOrder K] [IsStrictOrderedRing K] [FloorRing K] in
theorem placed_clear (u : RaycastRingBuffer POW K) (hoffset : s.distanceBuffer.offset = u.occupancyBuffer.offset)
    (h : s.occupancyBuffer = u.clearUpdatedMinMax) : s.Placed := by
  intro i
  rw [h, hoffset]
  exact le_rfl

theorem Placed.step (hmax : ((N POW : Int) : K) ≤ maxScalar) (hvalid : s.Valid resolution truncationDistance)
    {op : Op K} (hop : ∀ off, op ≠ .setOffset off) (h : (∃ direction, op = .moveVolume direction) ∨ s.Placed)
    (ht : s.step maxScalar sqrt op = some t) : t.Placed := by
  have hvalid' := hvalid.step hmax ht
  have hkeep : ∀ u : RaycastRingBuffer POW K, s.Placed → RaycastRingBuffer.Widens s.occupancyBuffer u →
      ∀ i, u.updatedMin i ≤ s.distanceBuffer.offset i + (N POW - 1) :=
    fun u hs hwide i => (hwide i).1.trans (hs i)
  cases op with
  | insertPointCloud cloud origin =>
    have hs := h.resolve_left fun ⟨direction, heq⟩ => by cases heq
    obtain rfl := Option.some.inj ht
    exact hkeep _ hs (RaycastRingBuffer.widens_insertPointCloud _ _ _ _)
  | decay =>
    have hs := h.resolve_left fun ⟨direction, heq⟩ => by cases heq
    obtain rfl := Option.some.inj ht
    exact hkeep _ hs (RaycastRingBuffer.decaying hvalid.occupancy.clear).widens
  | setOffset off => exact absurd rfl (hop off)
  | moveVolume direction =>
    intro i
    have hN := cast_N_pos POW
    obtain rfl := Option.some.inj ht
    have hcovers := (RaycastRingBuffer.moveVolume_coversVolume s.occupancyBuffer direction i).1
    rw [hvalid'.offset_eq]
    have hle : (s.occupancyBuffer.moveVolume direction).occupancyBuffer.offset i ≤
        (s.occupancyBuffer.moveVolume direction).occupancyBuffer.offset i + (N POW - 1) := by omega
    exact hcovers.trans hle
  | updateDistance =>
    have hupdate : s.computeEdt3d maxScalar sqrt = some t := ht
    have hin : s.InArrays := (computeEdt3d_isSome_iff hmax sqrt s).1 (by rw [hupdate]; rfl)
    obtain ⟨t', ht', htransformed⟩ := computeEdt3d_spec hmax sqrt hin
    obtain rfl := Option.some.inj (hupdate.symm.trans ht')
    exact placed_clear s.occupancyBuffer (htransformed.offset_eq.trans hvalid.offset_eq) htransformed.occupancyBuffer_eq

example : ([Op.setOffset ![0, 0, -5], .updateDistance].foldlM (step 100 id)
    (new 1 100 1 1 : EuclideanDistanceRingBuffer 1 ℚ)).isSome = false := by decide +kernel

end EuclideanDistanceRingBuffer
end A17.Ewok
