import A17.Ewok.VolumeInsertion

/-!
# Runs of the occupancy ring buffer

`decay` takes a miss off the occupied voxels of the volume, but its loops go over fixed coordinates, so voxels that
are farther than the size of the volume from the origin of the world are left alone. A move of the volume stretches
the updated box over all of it. No operation leaves a mark of an insertion (`Valid`).
-/

namespace A17.Ewok
open GridLoops GridWindow
variable {POW : Nat} {K : Type}

namespace RaycastRingBuffer
variable {s : RaycastRingBuffer POW K} {idx c : Vector3i}

/-! ### Decay -/

/-- What `decayVoxel` does to a voxel of the volume that is occupied. -/
def decayed (s : RaycastRingBuffer POW K) (idx : Vector3i) : RaycastRingBuffer POW K :=
  { s with
    occupancyBuffer := s.occupancyBuffer.setAt idx (addMiss (s.occupancyBuffer.at_ idx))
    flagBuffer := orFlag (clearFlag (orFlag s.flagBuffer idx Flag.occupied) idx Flag.insertion) idx
      Flag.updated }.stretch idx

theorem decayVoxel_eq (hclear : Clear s.flagBuffer) (idx : Vector3i) : s.decayVoxel idx =
    if s.occupiedAt idx = true ∧ Inside (N POW) s.occupancyBuffer.offset idx then s.decayed idx else s := by
  have hmark : ((orFlag s.flagBuffer idx Flag.occupied).at_ idx).has Flag.occupied = true :=
    has_orFlag.2 (.inr ⟨Congr.refl _ _, by decide⟩)
  have hnone : (s.flagBuffer.at_ idx).has Flag.occupied = false :=
    Bool.eq_false_iff.2 fun h => Bool.eq_false_iff.1 (hclear idx) (has_insertion.2 (.inl h))
  unfold decayVoxel
  by_cases hocc : s.occupiedAt idx = true
  · by_cases hin : Inside (N POW) s.occupancyBuffer.offset idx
    · simp only [hocc, RingBufferBase.insideVolume_iff.2 hin, hin, if_true, hmark, and_self]
      rfl
    · have hout := mt RingBufferBase.insideVolume_iff.1 hin
      simp only [hocc, hout, hin, if_true, if_false, hnone, Bool.false_eq_true, and_false]
  · simp only [hocc, if_false, Bool.false_eq_true, false_and]

theorem occupancy_decayed (s : RaycastRingBuffer POW K) (idx c : Vector3i) : (s.decayed idx).occupancyBuffer.at_ c =
    if Congr (N POW) idx c then addMiss (s.occupancyBuffer.at_ c) else s.occupancyBuffer.at_ c := by
  show (s.occupancyBuffer.setAt idx (addMiss (s.occupancyBuffer.at_ idx))).at_ c = _
  rw [RingBufferBase.at_setAt]
  split
  · next hc => rw [RingBufferBase.at_congr hc]
  · rfl

theorem isUpdated_decayed (s : RaycastRingBuffer POW K) (idx c : Vector3i) :
    (s.decayed idx).isUpdated c = true ↔ s.isUpdated c = true ∨ Congr (N POW) idx c := by
  have hset : Flag.updated.has Flag.updated = true := by decide
  have hother : ¬ Flag.occupied.has Flag.updated = true := by decide
  show ((orFlag (clearFlag (orFlag s.flagBuffer idx Flag.occupied) idx Flag.insertion) idx Flag.updated).at_ c).has
    Flag.updated = true ↔ _
  rw [has_orFlag, has_updated_clearFlag, has_orFlag]
  simp only [hset, hother, Bool.false_eq_true, and_false, or_false, and_true]
  rfl

theorem clear_decayed (hclear : Clear s.flagBuffer) (idx : Vector3i) : Clear (s.decayed idx).flagBuffer := by
  intro c
  have hother : ¬ Flag.updated.has Flag.insertion = true := by decide
  show ((orFlag (clearFlag (orFlag s.flagBuffer idx Flag.occupied) idx Flag.insertion) idx Flag.updated).at_ c).has
    Flag.insertion = false
  rw [Bool.eq_false_iff, ne_eq, has_orFlag, has_insertion_clearFlag, has_orFlag]
  rintro (⟨hc, h | ⟨hc', -⟩⟩ | ⟨-, h⟩)
  · exact Bool.eq_false_iff.1 (hclear c) h
  · exact hc hc'
  · exact hother h

/-- What holds once the loops have been over `done`, for a voxel `c` of the volume. -/
structure Decaying (s : RaycastRingBuffer POW K) (done : List Vector3i) (t : RaycastRingBuffer POW K) : Prop where
  frame : Frame s t
  clear : Clear t.flagBuffer
  occupancy : ∀ c, Inside (N POW) s.occupancyBuffer.offset c → t.occupancyBuffer.at_ c =
    if c ∈ done ∧ s.occupiedAt c = true then addMiss (s.occupancyBuffer.at_ c) else s.occupancyBuffer.at_ c
  updated : ∀ c, Inside (N POW) s.occupancyBuffer.offset c →
    (t.isUpdated c = true ↔ s.isUpdated c = true ∨ c ∈ done ∧ s.occupiedAt c = true)
  widens : Widens s t
  covers : ∀ c ∈ done, Inside (N POW) s.occupancyBuffer.offset c → s.occupiedAt c = true → t.Covers c

theorem Decaying.step {done : List Vector3i} {t : RaycastRingBuffer POW K} (h : s.Decaying done t) (hidx : idx ∉ done) :
    s.Decaying (done ++ [idx]) (t.decayVoxel idx) := by
  obtain ⟨hframe, hclear, hocc, hupd, hwide, hcov⟩ := h
  rw [decayVoxel_eq hclear, hframe.occupancyOffset_eq]
  -- a voxel the loops have not come to is as it was
  have hsame : Inside (N POW) s.occupancyBuffer.offset idx → t.occupiedAt idx = s.occupiedAt idx := by
    intro hin
    unfold occupiedAt
    rw [hocc idx hin, if_neg fun h => hidx h.1]
  have hcongr : ∀ c, Inside (N POW) s.occupancyBuffer.offset idx → Inside (N POW) s.occupancyBuffer.offset c →
      (Congr (N POW) idx c ↔ c = idx) := by
    intro c hin hc
    constructor
    · intro h
      exact (hin.eq (cast_N_pos POW) hc h).symm
    · rintro rfl
      exact Congr.refl _ _
  split
  · next hact =>
    obtain ⟨hoccupied, hin⟩ := hact
    rw [hsame hin] at hoccupied
    have hwide' : Widens t (t.decayed idx) := widens_stretch { t with occupancyBuffer := _, flagBuffer := _ } idx
    refine ⟨hframe.trans ⟨rfl, rfl, rfl, rfl, rfl, rfl⟩, clear_decayed hclear idx, fun c hc => ?_, fun c hc => ?_,
      hwide.trans hwide', fun c hmem hc ho => ?_⟩
    · rw [occupancy_decayed, hocc c hc]
      simp only [hcongr c hin hc, List.mem_append, List.mem_singleton]
      by_cases hci : c = idx
      · subst hci
        simp only [hidx, false_and, or_true, true_and, hoccupied, if_true, if_false]
      · simp only [hci, or_false, if_false]
    · rw [isUpdated_decayed, hupd c hc, hcongr c hin hc, List.mem_append, List.mem_singleton]
      constructor
      · rintro ((h | h) | rfl)
        exacts [.inl h, .inr ⟨.inl h.1, h.2⟩, .inr ⟨.inr rfl, hoccupied⟩]
      · rintro (h | ⟨h | h, ho⟩)
        exacts [.inl (.inl h), .inl (.inr ⟨h, ho⟩), .inr h]
    · rcases List.mem_append.1 hmem with hmem | hmem
      · exact hwide'.covers (hcov c hmem hc ho)
      · rw [List.mem_singleton.1 hmem]
        exact covers_stretch { t with occupancyBuffer := _, flagBuffer := _ } idx
  · next hact =>
    have hnot : ∀ c, Inside (N POW) s.occupancyBuffer.offset c → s.occupiedAt c = true → c ≠ idx := by
      rintro c hc hoccupied rfl
      exact hact ⟨(hsame hc).trans hoccupied, hc⟩
    have hmem : ∀ c, Inside (N POW) s.occupancyBuffer.offset c →
        (c ∈ done ++ [idx] ∧ s.occupiedAt c = true ↔ c ∈ done ∧ s.occupiedAt c = true) := by
      intro c hc
      rw [List.mem_append, List.mem_singleton]
      exact and_congr_left fun hoccupied => or_iff_left (hnot c hc hoccupied)
    refine ⟨hframe, hclear, fun c hc => ?_, fun c hc => ?_, hwide, fun c hdone hc ho => ?_⟩
    · rw [hocc c hc]
      simp only [hmem c hc]
    · rw [hupd c hc, hmem c hc]
    · exact hcov c ((hmem c hc).1 ⟨hdone, ho⟩).1 hc ho

theorem decaying (hclear : Clear s.flagBuffer) :
    s.Decaying (box (fun _ => -(N POW : Int)) fun _ => N POW) s.decay := by
  refine Run.history (H := s.Decaying) ⟨Frame.refl s, hclear, fun c _ => by simp, fun c _ => by simp, Widens.refl s,
    fun c h => by simp at h⟩ fun pre idx hpre h => h.step fun hmem => ?_
  obtain ⟨post, hpost⟩ := hpre
  have hnodup := nodup_box (fun _ => -(N POW : Int)) fun _ => (N POW : Int)
  rw [← hpost, List.append_assoc] at hnodup
  exact (List.nodup_append.1 hnodup).2.2 idx hmem idx (by simp) rfl

/-! ### Moves -/

/-- The updated box has the whole volume in it. -/
def CoversVolume (s : RaycastRingBuffer POW K) : Prop :=
  ∀ i, s.updatedMin i ≤ s.occupancyBuffer.offset i ∧ s.occupancyBuffer.offset i + (N POW - 1) ≤ s.updatedMax i

theorem CoversVolume.covers (h : s.CoversVolume) (hc : Inside (N POW) s.occupancyBuffer.offset c) : s.Covers c := by
  intro i
  have := h i
  have := hc i
  omega

/-- The slab of one axis stretches the box over the volume on the other axes. -/
theorem stretchSlab_spec (direction lo hi : Vector3i) (s : RaycastRingBuffer POW K) (axis : Fin 3) :
    Widens s (stretchSlab direction lo hi s axis) ∧
    ∀ i, i ≠ axis → (stretchSlab direction lo hi s axis).updatedMin i ≤ lo i ∧
      hi i ≤ (stretchSlab direction lo hi s axis).updatedMax i := by
  unfold stretchSlab
  split
  · refine ⟨(widens_stretch _ _).trans (widens_stretch _ _), fun i hi => ?_⟩
    simp only [stretch, Function.update_of_ne hi]
    omega
  · refine ⟨(widens_stretch _ _).trans (widens_stretch _ _), fun i hi => ?_⟩
    simp only [stretch, Function.update_of_ne hi]
    omega

theorem stretchSlab_eq (direction lo hi : Vector3i) (s : RaycastRingBuffer POW K) (axis : Fin 3) :
    stretchSlab direction lo hi s axis =
      { s with updatedMin := (stretchSlab direction lo hi s axis).updatedMin
               updatedMax := (stretchSlab direction lo hi s axis).updatedMax } := by
  unfold stretchSlab stretch
  split <;> rfl

theorem moveVolume_buffers (s : RaycastRingBuffer POW K) (direction : Vector3i) :
    (s.moveVolume direction).resolution = s.resolution ∧
      (s.moveVolume direction).occupancyBuffer = s.occupancyBuffer.moveVolume direction ∧
      (s.moveVolume direction).flagBuffer = s.flagBuffer.moveVolume direction := by
  unfold moveVolume
  refine Run.invariant (I := fun t : RaycastRingBuffer POW K => t.resolution = s.resolution ∧
    t.occupancyBuffer = s.occupancyBuffer.moveVolume direction ∧
      t.flagBuffer = s.flagBuffer.moveVolume direction) (fun t axis h => ?_) ⟨rfl, rfl, rfl⟩
  rw [stretchSlab_eq]
  exact h

/-- Wherever the volume moves, it is in the updated box after that. -/
theorem moveVolume_coversVolume (s : RaycastRingBuffer POW K) (direction : Vector3i) :
    (s.moveVolume direction).CoversVolume := by
  intro i
  rw [(moveVolume_buffers s direction).2.1]
  let s0 := { s with
    occupancyBuffer := s.occupancyBuffer.moveVolume direction
    flagBuffer := s.flagBuffer.moveVolume direction }
  let lo := (s.occupancyBuffer.moveVolume direction).offset
  let hi : Vector3i := fun i => lo i + (N POW - 1)
  let s1 := stretchSlab direction lo hi s0 0
  let s2 := stretchSlab direction lo hi s1 1
  have h0 := stretchSlab_spec direction lo hi s0 0
  have h1 := stretchSlab_spec direction lo hi s1 1
  have h2 := stretchSlab_spec direction lo hi s2 2
  show (stretchSlab direction lo hi s2 2).updatedMin i ≤ lo i ∧ hi i ≤ (stretchSlab direction lo hi s2 2).updatedMax i
  by_cases hi2 : i = 2
  · -- the slab of `y` or `x` has the whole range of `z`
    subst hi2
    have hz := h1.2 2 (by decide)
    have hkeep := h2.1 2
    exact ⟨hkeep.1.trans hz.1, hz.2.trans hkeep.2⟩
  · exact h2.2 i hi2

/-! ### Runs -/

inductive Op (K : Type)
  | insertPointCloud (cloud : List (Fin 3 → K)) (origin : Fin 3 → K)
  | decay
  | setOffset (off : Vector3i)
  | moveVolume (direction : Vector3i)
  | clearUpdated (idx : Vector3i)
  | clearUpdatedMinMax

def step [Field K] [LinearOrder K] [FloorRing K] (maxScalar : K) (s : RaycastRingBuffer POW K) :
    Op K → RaycastRingBuffer POW K
  | .insertPointCloud cloud origin => s.insertPointCloud maxScalar cloud origin
  | .decay => s.decay
  | .setOffset off => s.setOffset off
  | .moveVolume direction => s.moveVolume direction
  | .clearUpdated idx => (s.clearUpdated idx).1
  | .clearUpdatedMinMax => s.clearUpdatedMinMax

/-- What holds in every state of a buffer of that resolution. -/
structure Valid (resolution : K) (s : RaycastRingBuffer POW K) : Prop where
  resolution_eq : s.resolution = resolution
  occupancyResolution_eq : s.occupancyBuffer.resolution = resolution
  offset_eq : s.flagBuffer.offset = s.occupancyBuffer.offset
  occupancyEmpty_eq : s.occupancyBuffer.emptyElement = 0
  flagEmpty_eq : s.flagBuffer.emptyElement = Flag.updated
  clear : Clear s.flagBuffer

variable {resolution : K}

theorem valid_new (POW : Nat) (resolution : K) : (new POW resolution).Valid resolution := by
  refine ⟨rfl, rfl, rfl, rfl, rfl, fun c => ?_⟩
  have hzero : (new POW resolution).flagBuffer.at_ c = 0 := RingBufferBase.at_new POW resolution 0 c
  rw [hzero]
  decide

theorem Valid.of_frame {t : RaycastRingBuffer POW K} (h : s.Valid resolution) (hframe : Frame s t)
    (hclear : Clear t.flagBuffer) : t.Valid resolution :=
  ⟨hframe.resolution_eq.trans h.resolution_eq, hframe.occupancyResolution_eq.trans h.occupancyResolution_eq,
    (hframe.flagOffset_eq.trans h.offset_eq).trans hframe.occupancyOffset_eq.symm,
    hframe.occupancyEmpty_eq.trans h.occupancyEmpty_eq, hframe.flagEmpty_eq.trans h.flagEmpty_eq, hclear⟩

theorem resolution_moveVolume {α : Type} (b : RingBufferBase POW α K) (direction : Vector3i) :
    (b.moveVolume direction).resolution = b.resolution := by
  refine Run.invariant (I := fun b' : RingBufferBase POW α K => b'.resolution = b.resolution) (fun b' axis h => ?_) rfl
  obtain ⟨buffer, heq⟩ := RingBufferBase.moveAxis_eq direction b' axis
  rw [heq]
  exact h

/-- The cells of a buffer whose voxels all have a property, and whose empty element has it, have it after a move. -/
theorem forall_at_moveVolume {α : Type} {b : RingBufferBase POW α K} {P : α → Prop} (h : ∀ c, P (b.at_ c))
    (hempty : P b.emptyElement) (direction c : Vector3i) : P ((b.moveVolume direction).at_ c) := by
  have hin : Inside (N POW) (b.moveVolume direction).offset (fitBox (N POW) (b.moveVolume direction).offset c) :=
    inside_fitBox (cast_N_pos POW)
  rw [← RingBufferBase.at_congr congr_fitBox, RingBufferBase.at_moveVolume b hin]
  split
  exacts [h _, hempty]

theorem Valid.moveVolume (h : s.Valid resolution) (direction : Vector3i) :
    (s.moveVolume direction).Valid resolution := by
  obtain ⟨hres, hocc, hflag⟩ := moveVolume_buffers s direction
  refine ⟨hres.trans h.resolution_eq, ?_, ?_, ?_, ?_, ?_⟩
  · rw [hocc, resolution_moveVolume, h.occupancyResolution_eq]
  · rw [hocc, hflag, RingBufferBase.offset_moveVolume, RingBufferBase.offset_moveVolume, h.offset_eq]
  · rw [hocc, RingBufferBase.emptyElement_moveVolume, h.occupancyEmpty_eq]
  · rw [hflag, RingBufferBase.emptyElement_moveVolume, h.flagEmpty_eq]
  · rw [hflag]
    intro c
    refine forall_at_moveVolume (P := fun f : Flag => f.has Flag.insertion = false) h.clear ?_ direction c
    rw [h.flagEmpty_eq]
    decide

theorem clear_clearUpdated (h : Clear s.flagBuffer) (idx : Vector3i) : Clear (s.clearUpdated idx).1.flagBuffer := by
  intro c
  show ((clearFlag s.flagBuffer idx Flag.updated).at_ c).has Flag.insertion = false
  rw [at_clearFlag]
  split
  · rw [Flag.has_and_not]
    exact h c
  · exact h c

variable [Field K] [LinearOrder K] [FloorRing K] {maxScalar : K}

theorem Valid.step (maxScalar : K) (h : s.Valid resolution) (op : Op K) : (s.step maxScalar op).Valid resolution := by
  cases op with
  | insertPointCloud cloud origin =>
    exact h.of_frame (frame_insertPointCloud s maxScalar cloud origin) (clear_insertPointCloud h.clear)
  | decay => exact h.of_frame (decaying h.clear).frame (decaying h.clear).clear
  | setOffset off =>
    exact ⟨h.resolution_eq, h.occupancyResolution_eq, rfl, h.occupancyEmpty_eq, h.flagEmpty_eq, h.clear⟩
  | moveVolume direction => exact h.moveVolume direction
  | clearUpdated idx => exact h.of_frame ⟨rfl, rfl, rfl, rfl, rfl, rfl⟩ (clear_clearUpdated h.clear idx)
  | clearUpdatedMinMax => exact h.of_frame ⟨rfl, rfl, rfl, rfl, rfl, rfl⟩ h.clear

theorem valid_run (maxScalar : K) (ops : List (Op K)) :
    (ops.foldl (step maxScalar) (new POW resolution)).Valid resolution :=
  Run.invariant (I := fun s : RaycastRingBuffer POW K => s.Valid resolution) (fun _ op h => h.step maxScalar op)
    (valid_new POW resolution)

/-- Whatever has been done before, a cloud that is seen from the interior of the volume gives each voxel at most one
hit or one miss, and the voxels whose state changes are flagged and in the updated box. -/
theorem insertPointCloud_of_run [IsStrictOrderedRing K] (hres : 0 < resolution) (hmax : 0 < maxScalar)
    (ops : List (Op K)) (cloud : List (Fin 3 → K)) (origin : Fin 3 → K) (c : Vector3i) :
    let s := ops.foldl (step maxScalar) (new POW resolution)
    let t := s.insertPointCloud maxScalar cloud origin
    s.Interior origin → Inside (N POW) s.occupancyBuffer.offset c →
      t.occupancyBuffer.at_ c =
          (if ∃ v ∈ cloud, s.occupancyBuffer.getIdx v = c then addHit (s.occupancyBuffer.at_ c)
          else if ∃ v ∈ cloud, c ∈ line (s.rayEnd maxScalar origin v) (s.occupancyBuffer.getIdx origin) then
            addMiss (s.occupancyBuffer.at_ c)
          else s.occupancyBuffer.at_ c) ∧
        (t.isUpdated c = true ↔ s.isUpdated c = true ∨ t.occupiedAt c ≠ s.occupiedAt c) ∧
        (t.occupiedAt c ≠ s.occupiedAt c → t.Covers c) := by
  intro s t ho hc
  have hvalid : s.Valid resolution := valid_run maxScalar ops
  have hin : s.RaysInside maxScalar cloud origin := by
    refine raysInside ?_ ?_ hmax ho
    · rw [hvalid.resolution_eq]
      exact hres
    · rw [hvalid.occupancyResolution_eq, hvalid.resolution_eq]
  obtain ⟨hhit, hmiss, hsame⟩ := occupancy_insertPointCloud hin hvalid.clear hc
  refine ⟨?_, isUpdated_insertPointCloud hin hvalid.clear hc, covers_insertPointCloud hin hc⟩
  split_ifs with h1 h2
  exacts [hhit h1, hmiss h1 h2, hsame h2]

/-- A volume that has moved, and a ray of three voxels that is inserted for the second time. -/
theorem insertPointCloud_of_run_ray :
    let cloud : List (Fin 3 → ℚ) := [![2, 0, 0]]
    let s := [Op.moveVolume ![1, 0, 0], .insertPointCloud cloud ![0, 0, 0]].foldl (step 100)
      (new 2 1 : RaycastRingBuffer 2 ℚ)
    let t := s.insertPointCloud 100 cloud ![0, 0, 0]
    (t.occupancyBuffer.at_ ![2, 0, 0] = 20256 ∧ t.isUpdated ![2, 0, 0] = true ∧ t.Covers ![2, 0, 0]) ∧
      t.occupancyBuffer.at_ ![1, 0, 0] = -9532 := by
  -- the states stay written out: the kernel compares local definitions of them by running them
  dsimp only
  have hrun := fun c : Vector3i => @insertPointCloud_of_run 2 ℚ 1 _ _ _ 100 _ (by norm_num) (by norm_num)
    [.moveVolume ![1, 0, 0], .insertPointCloud [![2, 0, 0]] ![0, 0, 0]] [![2, 0, 0]] ![0, 0, 0] c
    (by unfold Interior; decide +kernel)
  obtain ⟨hat, hupdated, hcovers⟩ := hrun ![2, 0, 0] (by decide +kernel)
  obtain ⟨hat', -, -⟩ := hrun ![1, 0, 0] (by decide +kernel)
  rw [if_pos (by decide +kernel)] at hat
  rw [if_neg (by decide +kernel), if_pos (by decide +kernel)] at hat'
  have hat := hat.trans (c := 20256) (by decide +kernel)
  refine ⟨⟨hat, hupdated.2 (.inr ?changed), hcovers ?changed⟩, hat'.trans (by decide +kernel)⟩
  case changed =>
    rw [occupiedAt, hat]
    decide +kernel

/-- `decay` takes one miss off each occupied voxel of the volume whose coordinates are at most the size of the volume,
and of the other voxels it changes nothing. -/
theorem decay_of_run (ops : List (Op K)) (c : Vector3i) :
    let s := ops.foldl (step maxScalar) (new POW resolution)
    Inside (N POW) s.occupancyBuffer.offset c →
      s.decay.occupancyBuffer.at_ c =
          (if (∀ i, -(N POW : Int) ≤ c i ∧ c i ≤ N POW) ∧ s.occupiedAt c = true then
            addMiss (s.occupancyBuffer.at_ c)
          else s.occupancyBuffer.at_ c) ∧
        (s.decay.isUpdated c = true ↔ s.isUpdated c = true ∨
          (∀ i, -(N POW : Int) ≤ c i ∧ c i ≤ N POW) ∧ s.occupiedAt c = true) ∧
        (s.decay.occupancyBuffer.at_ c ≠ s.occupancyBuffer.at_ c → s.decay.Covers c) := by
  intro s hc
  have hvalid : s.Valid resolution := valid_run maxScalar ops
  have h := decaying hvalid.clear
  have hmem : c ∈ box (fun _ => -(N POW : Int)) (fun _ => (N POW : Int)) ↔ _ := mem_box
  refine ⟨?_, ?_, fun hne => ?_⟩
  · rw [h.occupancy c hc]
    simp only [hmem]
  · rw [h.updated c hc, hmem]
  · by_cases hact : c ∈ box (fun _ => -(N POW : Int)) (fun _ => (N POW : Int)) ∧ s.occupiedAt c = true
    · exact h.covers c hact.1 hc hact.2
    · rw [h.occupancy c hc, if_neg hact] at hne
      exact absurd rfl hne

/-- A voxel that is hit twice is occupied, and decays. -/
theorem decay_of_run_occupied :
    let hit : Op ℚ := .insertPointCloud [fun _ => 0] fun _ => 0
    let s := [hit, hit].foldl (step 100) (new 1 1 : RaycastRingBuffer 1 ℚ)
    s.occupancyBuffer.at_ (fun _ => 0) = 20256 ∧ s.decay.occupancyBuffer.at_ (fun _ => 0) = 15490 ∧
      s.decay.isUpdated (fun _ => 0) = true ∧ s.decay.Covers fun _ => 0 := by
  intro hit s
  have hs : s.occupancyBuffer.at_ (fun _ => 0) = 20256 := by decide +kernel
  have hocc : (∀ _ : Fin 3, -(N 1 : Int) ≤ 0 ∧ 0 ≤ (N 1 : Int)) ∧ s.occupiedAt (fun _ => 0) = true := by
    rw [occupiedAt, hs]
    decide +kernel
  obtain ⟨hat, hupd, hcov⟩ := @decay_of_run 1 ℚ 1 _ _ _ 100 [hit, hit] (fun _ => 0) (by decide +kernel)
  rw [if_pos hocc] at hat
  have hat : s.decay.occupancyBuffer.at_ (fun _ => 0) = 15490 :=
    hat.trans ((congrArg addMiss hs).trans (by decide +kernel))
  refine ⟨hs, hat, hupd.2 (.inr hocc), hcov ?_⟩
  rw [hat]
  show _ ≠ s.occupancyBuffer.at_ (fun _ => 0)
  rw [hs]
  decide

/-- A move is of one voxel at most along each axis. The voxels that come in are unknown and flagged, the others are as
before, and the updated box has the whole volume in it. -/
theorem moveVolume_of_run (ops : List (Op K)) (direction c : Vector3i) :
    let s := ops.foldl (step maxScalar) (new POW resolution)
    let t := s.moveVolume direction
    (t.occupancyBuffer.offset = fun i => s.occupancyBuffer.offset i + (direction i).sign) ∧
      (Inside (N POW) t.occupancyBuffer.offset c → t.Covers c ∧
        if Inside (N POW) s.occupancyBuffer.offset c then
          t.occupancyBuffer.at_ c = s.occupancyBuffer.at_ c ∧ t.flagBuffer.at_ c = s.flagBuffer.at_ c
        else t.occupancyBuffer.at_ c = 0 ∧ t.flagBuffer.at_ c = Flag.updated) := by
  intro s t
  have hvalid : s.Valid resolution := valid_run maxScalar ops
  obtain ⟨-, hocc, hflag⟩ := moveVolume_buffers s direction
  refine ⟨?_, fun hc => ⟨(moveVolume_coversVolume s direction).covers hc, ?_⟩⟩
  · show (s.moveVolume direction).occupancyBuffer.offset = _
    rw [hocc, RingBufferBase.offset_moveVolume]
  have hc' : Inside (N POW) (s.flagBuffer.moveVolume direction).offset c := by
    rw [← hflag, (hvalid.moveVolume direction).offset_eq]
    exact hc
  show if _ then (s.moveVolume direction).occupancyBuffer.at_ c = _ ∧ (s.moveVolume direction).flagBuffer.at_ c = _
    else (s.moveVolume direction).occupancyBuffer.at_ c = _ ∧ (s.moveVolume direction).flagBuffer.at_ c = _
  rw [hocc, hflag, RingBufferBase.at_moveVolume _ (hocc ▸ hc), RingBufferBase.at_moveVolume _ hc', hvalid.offset_eq,
    hvalid.occupancyEmpty_eq, hvalid.flagEmpty_eq]
  split
  · exact ⟨rfl, rfl⟩
  · exact ⟨rfl, rfl⟩

/-- After a cloud, a move with a long direction: one voxel is kept and another one comes in. -/
theorem moveVolume_of_run_hit :
    let s := [Op.insertPointCloud [fun _ => 0] fun _ => 0].foldl (step 100) (new 1 1 : RaycastRingBuffer 1 ℚ)
    let t := s.moveVolume ![5, 0, 0]
    t.occupancyBuffer.at_ ![0, 0, 0] = 10128 ∧ t.occupancyBuffer.at_ ![1, 0, 0] = 0 ∧
      t.flagBuffer.at_ ![1, 0, 0] = Flag.updated := by
  intro s t
  have hkept := ((@moveVolume_of_run 1 ℚ 1 _ _ _ 100 [.insertPointCloud [fun _ => 0] fun _ => 0] ![5, 0, 0]
    ![0, 0, 0]).2 (by decide +kernel)).2
  have hnew := ((@moveVolume_of_run 1 ℚ 1 _ _ _ 100 [.insertPointCloud [fun _ => 0] fun _ => 0] ![5, 0, 0]
    ![1, 0, 0]).2 (by decide +kernel)).2
  rw [if_pos (by decide +kernel)] at hkept
  rw [if_neg (by decide +kernel)] at hnew
  exact ⟨hkept.1.trans (by decide +kernel), hnew⟩

end RaycastRingBuffer
end A17.Ewok
