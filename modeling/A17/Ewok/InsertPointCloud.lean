import A17.Ewok.Rays

/-!
# Inserting a point cloud

What the three passes leave: a voxel that holds a point gets one hit, another one that a ray goes through gets one
miss, however many points and rays there are (`occupancy_insertPointCloud`). The marks are all taken back, so the
next cloud starts from clear flags.
-/

namespace A17.Ewok
open GridLoops GridWindow
variable {POW : Nat} {K : Type}

section
variable {flags : RingBufferBase POW Flag K} {c d : Vector3i} {f h : Flag}

theorem has_orFlag : ((orFlag flags c f).at_ d).has h = true ↔
    (flags.at_ d).has h = true ∨ Congr (N POW) c d ∧ f.has h = true := by
  rw [at_orFlag]
  split
  · next hc => simp only [Flag.has_or_left, hc, true_and]
  · next hc => simp only [hc, false_and, or_false]

theorem has_orFlags {path : List Vector3i} : ((orFlags flags path f).at_ d).has h = true ↔
    (flags.at_ d).has h = true ∨ (∃ c ∈ path, Congr (N POW) c d) ∧ f.has h = true := by
  rw [at_orFlags]
  split
  · next hc => simp only [Flag.has_or_left, hc, true_and]
  · next hc => simp only [hc, false_and, or_false]

theorem at_clearFlag : (clearFlag flags c f).at_ d =
    if Congr (N POW) c d then flags.at_ d &&& ~~~f else flags.at_ d := by
  unfold clearFlag
  rw [RingBufferBase.at_setAt]
  split
  · next hc => rw [RingBufferBase.at_congr hc]
  · rfl

theorem has_insertion_clearFlag : ((clearFlag flags c Flag.insertion).at_ d).has Flag.insertion = true ↔
    ¬ Congr (N POW) c d ∧ (flags.at_ d).has Flag.insertion = true := by
  rw [at_clearFlag]
  split
  · next hc =>
    have hnone : (flags.at_ d &&& ~~~Flag.insertion).has Flag.insertion = false := by
      rw [Flag.has_and_not, Bool.eq_false_iff, ne_eq, Flag.has_iff]
      simp
    simp only [hnone, hc, not_true_eq_false, false_and, Bool.false_eq_true]
  · next hc => simp only [hc, not_false_eq_true, true_and]

theorem has_updated_clearFlag :
    ((clearFlag flags c Flag.insertion).at_ d).has Flag.updated = (flags.at_ d).has Flag.updated := by
  rw [at_clearFlag]
  split
  · exact Flag.has_and_not
  · rfl

end

/-- No mark of an insertion is left. -/
def Clear (flags : RingBufferBase POW Flag K) : Prop := ∀ c, (flags.at_ c).has Flag.insertion = false

theorem has_insertion {f : Flag} : f.has Flag.insertion = true ↔
    f.has Flag.occupied = true ∨ f.has (Flag.free ||| Flag.freeRay) = true := by
  have h : Flag.insertion = Flag.occupied ||| (Flag.free ||| Flag.freeRay) := BitVec.or_assoc ..
  rw [h, Flag.has_or_right]

namespace RaycastRingBuffer

/-- What only moves change. -/
structure Frame (s t : RaycastRingBuffer POW K) : Prop where
  resolution_eq : t.resolution = s.resolution
  occupancyResolution_eq : t.occupancyBuffer.resolution = s.occupancyBuffer.resolution
  occupancyOffset_eq : t.occupancyBuffer.offset = s.occupancyBuffer.offset
  occupancyEmpty_eq : t.occupancyBuffer.emptyElement = s.occupancyBuffer.emptyElement
  flagOffset_eq : t.flagBuffer.offset = s.flagBuffer.offset
  flagEmpty_eq : t.flagBuffer.emptyElement = s.flagBuffer.emptyElement

theorem Frame.refl (s : RaycastRingBuffer POW K) : Frame s s := ⟨rfl, rfl, rfl, rfl, rfl, rfl⟩

theorem Frame.trans {s t u : RaycastRingBuffer POW K} (h : Frame s t) (h' : Frame t u) : Frame s u :=
  ⟨h'.1.trans h.1, h'.2.trans h.2, h'.3.trans h.3, h'.4.trans h.4, h'.5.trans h.5, h'.6.trans h.6⟩

/-- The updated box has `c` in it. -/
def Covers (s : RaycastRingBuffer POW K) (c : Vector3i) : Prop := ∀ i, s.updatedMin i ≤ c i ∧ c i ≤ s.updatedMax i

/-- The updated box of `t` has that of `s` in it. -/
def Widens (s t : RaycastRingBuffer POW K) : Prop :=
  ∀ i, t.updatedMin i ≤ s.updatedMin i ∧ s.updatedMax i ≤ t.updatedMax i

theorem Widens.refl (s : RaycastRingBuffer POW K) : Widens s s := fun _ => ⟨le_rfl, le_rfl⟩

theorem Widens.trans {s t u : RaycastRingBuffer POW K} (h : Widens s t) (h' : Widens t u) : Widens s u :=
  fun i => ⟨(h' i).1.trans (h i).1, (h i).2.trans (h' i).2⟩

theorem Widens.covers {s t : RaycastRingBuffer POW K} {c : Vector3i} (h : Widens s t) (hc : s.Covers c) : t.Covers c :=
  fun i => ⟨(h i).1.trans (hc i).1, (hc i).2.trans (h i).2⟩

theorem widens_stretch (s : RaycastRingBuffer POW K) (idx : Vector3i) : Widens s (s.stretch idx) :=
  fun _ => ⟨min_le_left _ _, le_max_left _ _⟩

theorem covers_stretch (s : RaycastRingBuffer POW K) (idx : Vector3i) : (s.stretch idx).Covers idx :=
  fun _ => ⟨min_le_right _ _, le_max_right _ _⟩

section
variable [Field K] [LinearOrder K] [FloorRing K] {s : RaycastRingBuffer POW K} {maxScalar : K} {origin : Fin 3 → K}
  {originIdx : Vector3i}

/-! ### The ends of the rays -/

/-- The voxel that the first pass marks for a point. -/
def rayEnd (s : RaycastRingBuffer POW K) (maxScalar : K) (origin v : Fin 3 → K) : Vector3i :=
  if s.occupancyBuffer.insideVolume (s.occupancyBuffer.getIdx v) then s.occupancyBuffer.getIdx v
  else s.occupancyBuffer.getIdx (s.closestPointInVolume maxScalar v origin)

/-- The mark of that voxel. -/
def endMark (s : RaycastRingBuffer POW K) (v : Fin 3 → K) : Flag :=
  if s.occupancyBuffer.insideVolume (s.occupancyBuffer.getIdx v) then Flag.occupied else Flag.freeRay

theorem markPoint_eq (flags : RingBufferBase POW Flag K) (lo hi : Vector3i) (v : Fin 3 → K) :
    markPoint maxScalar origin ⟨{ s with flagBuffer := flags }, lo, hi⟩ v =
      ⟨{ s with flagBuffer := orFlag flags (s.rayEnd maxScalar origin v) (s.endMark v) },
        fun i => min (lo i) (s.rayEnd maxScalar origin v i), fun i => max (hi i) (s.rayEnd maxScalar origin v i)⟩ := by
  unfold markPoint rayEnd endMark
  by_cases hin : s.occupancyBuffer.insideVolume (s.occupancyBuffer.getIdx v) = true
  · simp only [hin, if_true]
  · simp only [hin, if_false, Bool.false_eq_true]
    rfl

/-- What holds after the first pass over `cloud`. -/
structure Marked (s : RaycastRingBuffer POW K) (maxScalar : K) (origin : Fin 3 → K) (originIdx : Vector3i)
    (cloud : List (Fin 3 → K)) (m : Marking POW K) : Prop where
  state_eq : m.state = { s with flagBuffer := m.state.flagBuffer }
  offset_eq : m.state.flagBuffer.offset = s.flagBuffer.offset
  emptyElement_eq : m.state.flagBuffer.emptyElement = s.flagBuffer.emptyElement
  has_iff : ∀ c h, (m.state.flagBuffer.at_ c).has h = true ↔ (s.flagBuffer.at_ c).has h = true ∨
    ∃ v ∈ cloud, Congr (N POW) (s.rayEnd maxScalar origin v) c ∧ (s.endMark v).has h = true
  origin_mem : ∀ i, m.minIdx i ≤ originIdx i ∧ originIdx i ≤ m.maxIdx i
  end_mem : ∀ v ∈ cloud, ∀ i,
    m.minIdx i ≤ s.rayEnd maxScalar origin v i ∧ s.rayEnd maxScalar origin v i ≤ m.maxIdx i
  hull : ∀ lo hi : Vector3i, (∀ i, lo i ≤ originIdx i ∧ originIdx i ≤ hi i) →
    (∀ v ∈ cloud, ∀ i, lo i ≤ s.rayEnd maxScalar origin v i ∧ s.rayEnd maxScalar origin v i ≤ hi i) →
    ∀ i, lo i ≤ m.minIdx i ∧ m.maxIdx i ≤ hi i

theorem marked (s : RaycastRingBuffer POW K) (maxScalar : K) (origin : Fin 3 → K) (originIdx : Vector3i)
    (cloud : List (Fin 3 → K)) :
    s.Marked maxScalar origin originIdx cloud (cloud.foldl (markPoint maxScalar origin) ⟨s, originIdx, originIdx⟩) := by
  induction cloud using List.reverseRecOn with
  | nil =>
    refine ⟨rfl, rfl, rfl, fun c h => ?_, fun i => ⟨le_rfl, le_rfl⟩, fun v hv => absurd hv List.not_mem_nil,
      fun lo hi ho _ i => ho i⟩
    simp
  | append_singleton cloud v ih =>
    rw [List.foldl_concat]
    generalize cloud.foldl (markPoint maxScalar origin) ⟨s, originIdx, originIdx⟩ = m at ih
    obtain ⟨state, lo, hi⟩ := m
    obtain ⟨hstate, hoffset, hempty, hhas, horigin, hend, hhull⟩ := ih
    simp only at hstate hoffset hempty hhas horigin hend hhull
    rw [hstate, markPoint_eq]
    refine ⟨rfl, hoffset, hempty, fun c h => ?_, fun i => ?_, fun u hu i => ?_, fun lo' hi' ho hu i => ?_⟩
    · simp only [has_orFlag, hhas, List.mem_append, List.mem_singleton, or_and_right, exists_or, exists_eq_left,
        or_assoc]
    · have := horigin i
      simp only
      omega
    · rcases List.mem_append.1 hu with hu | hu
      · have := hend u hu i
        simp only
        omega
      · rw [List.mem_singleton.1 hu]
        simp only
        omega
    · have h1 := hhull lo' hi' ho (fun u hu' => hu u (List.mem_append_left _ hu')) i
      have h2 := hu v (List.mem_append_right _ (List.mem_singleton_self v)) i
      simp only
      omega

end

/-! ### The rays -/

/-- What holds after the rays of the voxels of `done`. -/
structure Rayed (s : RaycastRingBuffer POW K) (originIdx : Vector3i) (done : List Vector3i)
    (t : RaycastRingBuffer POW K) : Prop where
  state_eq : t = { s with flagBuffer := t.flagBuffer }
  offset_eq : t.flagBuffer.offset = s.flagBuffer.offset
  emptyElement_eq : t.flagBuffer.emptyElement = s.flagBuffer.emptyElement
  has_iff : ∀ c h, (t.flagBuffer.at_ c).has h = true ↔ (s.flagBuffer.at_ c).has h = true ∨
    (∃ idx ∈ done, (s.flagBuffer.at_ idx).has (Flag.occupied ||| Flag.freeRay) = true ∧
      ∃ p ∈ line idx originIdx, Congr (N POW) p c) ∧ Flag.free.has h = true

theorem orFlags_frame (flags : RingBufferBase POW Flag K) (path : List Vector3i) (f : Flag) :
    (orFlags flags path f).offset = flags.offset ∧ (orFlags flags path f).emptyElement = flags.emptyElement :=
  Run.invariant (I := fun b : RingBufferBase POW Flag K => b.offset = flags.offset ∧
    b.emptyElement = flags.emptyElement) (fun _ _ h => h) ⟨rfl, rfl⟩

theorem rayed (s : RaycastRingBuffer POW K) (originIdx : Vector3i) (done : List Vector3i) :
    s.Rayed originIdx done (done.foldl (insertRay originIdx) s) := by
  induction done using List.reverseRecOn with
  | nil => exact ⟨rfl, rfl, rfl, fun c h => by simp⟩
  | append_singleton done idx ih =>
    rw [List.foldl_concat]
    generalize done.foldl (insertRay originIdx) s = t at ih
    obtain ⟨hstate, hoffset, hempty, hhas⟩ := ih
    have hend : (t.flagBuffer.at_ idx).has (Flag.occupied ||| Flag.freeRay) = true ↔
        (s.flagBuffer.at_ idx).has (Flag.occupied ||| Flag.freeRay) = true := by
      rw [hhas]
      exact or_iff_left fun h => absurd h.2 (by decide)
    unfold insertRay
    split
    · next hmark =>
      rw [insertFreeBresenham3D_eq]
      obtain ⟨ho, he⟩ := orFlags_frame t.flagBuffer (line idx originIdx) Flag.free
      refine ⟨by rw [hstate], ho.trans hoffset, he.trans hempty, fun c h => ?_⟩
      rw [has_orFlags, hhas]
      simp only [List.mem_append, List.mem_singleton, or_and_right, exists_or, exists_eq_left, hend.1 hmark, true_and,
        or_assoc]
    · next hmark =>
      refine ⟨hstate, hoffset, hempty, fun c h => ?_⟩
      rw [hhas]
      simp only [List.mem_append, List.mem_singleton, or_and_right, exists_or, exists_eq_left, mt hend.2 hmark,
        Bool.false_eq_true, false_and, or_false]

/-! ### The marked voxels -/

/-- What is made of a voxel by its marks. -/
def settle (f : Flag) (d : Datatype) : Datatype :=
  if f.has Flag.occupied then addHit d else if f.has (Flag.free ||| Flag.freeRay) then addMiss d else d

/-- The flags that are left of it. -/
def settleFlag (f : Flag) (d : Datatype) : Flag :=
  if f.has Flag.insertion then
    if isOccupied d ≠ isOccupied (settle f d) then (f &&& ~~~Flag.insertion) ||| Flag.updated
    else f &&& ~~~Flag.insertion
  else f

theorem has_settleFlag (f : Flag) (d : Datatype) : (settleFlag f d).has Flag.insertion = false := by
  have hclear : (f &&& ~~~Flag.insertion).has Flag.insertion = false := by
    rw [Flag.has_and_not, Bool.eq_false_iff, ne_eq, Flag.has_iff]
    simp
  unfold settleFlag
  split
  · split
    · rw [Bool.eq_false_iff, ne_eq, Flag.has_or_left, hclear]
      decide
    · exact hclear
  · next h => exact Bool.eq_false_iff.2 h

theorem settle_of_clear {f : Flag} (h : f.has Flag.insertion = false) (d : Datatype) :
    settle f d = d ∧ settleFlag f d = f := by
  have hmarks := mt has_insertion.2 (Bool.eq_false_iff.1 h)
  rw [not_or] at hmarks
  refine ⟨?_, ?_⟩
  · rw [settle, if_neg hmarks.1, if_neg hmarks.2]
  · rw [settleFlag, if_neg (Bool.eq_false_iff.1 h)]

section
variable {s : RaycastRingBuffer POW K} {idx c : Vector3i}

theorem occupancy_updateOccupancy (add : Datatype → Datatype) (s : RaycastRingBuffer POW K) (idx c : Vector3i) :
    (s.updateOccupancy add idx).occupancyBuffer.at_ c =
      if Congr (N POW) idx c then add (s.occupancyBuffer.at_ c) else s.occupancyBuffer.at_ c := by
  have hset : (s.updateOccupancy add idx).occupancyBuffer =
      s.occupancyBuffer.setAt idx (add (s.occupancyBuffer.at_ idx)) := by
    unfold updateOccupancy
    simp only
    split <;> rfl
  rw [hset, RingBufferBase.at_setAt]
  split
  · next hc => rw [RingBufferBase.at_congr hc]
  · rfl

theorem flag_updateOccupancy (add : Datatype → Datatype) (s : RaycastRingBuffer POW K) (idx c : Vector3i) :
    (s.updateOccupancy add idx).flagBuffer.at_ c =
      if Congr (N POW) idx c then
        if isOccupied (s.occupancyBuffer.at_ c) ≠ isOccupied (add (s.occupancyBuffer.at_ c)) then
          (s.flagBuffer.at_ c &&& ~~~Flag.insertion) ||| Flag.updated
        else s.flagBuffer.at_ c &&& ~~~Flag.insertion
      else s.flagBuffer.at_ c := by
  unfold updateOccupancy
  simp only
  by_cases hc : Congr (N POW) idx c
  · rw [if_pos hc, RingBufferBase.at_congr (b := s.occupancyBuffer) hc]
    split
    · show (orFlag _ idx Flag.updated).at_ c = _
      rw [at_orFlag, if_pos hc, at_clearFlag, if_pos hc]
    · rw [at_clearFlag, if_pos hc]
  · rw [if_neg hc]
    split
    · show (orFlag _ idx Flag.updated).at_ c = _
      rw [at_orFlag, if_neg hc, at_clearFlag, if_neg hc]
    · rw [at_clearFlag, if_neg hc]

/-- A voxel is updated by its marks, and no other voxel is touched. -/
theorem updateVoxel_spec (s : RaycastRingBuffer POW K) (idx c : Vector3i) :
    (s.updateVoxel idx).occupancyBuffer.at_ c =
        (if Congr (N POW) idx c then settle (s.flagBuffer.at_ c) (s.occupancyBuffer.at_ c)
        else s.occupancyBuffer.at_ c) ∧
      (s.updateVoxel idx).flagBuffer.at_ c =
        if Congr (N POW) idx c then settleFlag (s.flagBuffer.at_ c) (s.occupancyBuffer.at_ c)
        else s.flagBuffer.at_ c := by
  by_cases hc : Congr (N POW) idx c
  · have hflag : s.flagBuffer.at_ idx = s.flagBuffer.at_ c := RingBufferBase.at_congr hc
    unfold updateVoxel settleFlag settle
    rw [hflag]
    by_cases hocc : (s.flagBuffer.at_ c).has Flag.occupied = true
    · have hins := has_insertion.2 (.inl hocc)
      simp only [hocc, hins, hc, if_true, occupancy_updateOccupancy, flag_updateOccupancy, and_self]
    · by_cases hfree : (s.flagBuffer.at_ c).has (Flag.free ||| Flag.freeRay) = true
      · have hins := has_insertion.2 (.inr hfree)
        simp only [hocc, hfree, hins, hc, if_true, if_false, Bool.false_eq_true, occupancy_updateOccupancy,
          flag_updateOccupancy, and_self]
      · have hins : (s.flagBuffer.at_ c).has Flag.insertion = false :=
          Bool.eq_false_iff.2 fun h => (has_insertion.1 h).elim hocc hfree
        simp only [hocc, hfree, hins, if_false, Bool.false_eq_true, if_true, hc, and_self]
  · have hother : ∀ add, (s.updateOccupancy add idx).occupancyBuffer.at_ c = s.occupancyBuffer.at_ c ∧
        (s.updateOccupancy add idx).flagBuffer.at_ c = s.flagBuffer.at_ c := by
      intro add
      rw [occupancy_updateOccupancy, flag_updateOccupancy, if_neg hc, if_neg hc]
      exact ⟨rfl, rfl⟩
    rw [if_neg hc, if_neg hc]
    unfold updateVoxel
    split
    · exact hother addHit
    · split
      · exact hother addMiss
      · exact ⟨rfl, rfl⟩

/-- The cells of the voxels of `done` are settled, each once; the others are as they were. -/
theorem foldl_updateVoxel (s : RaycastRingBuffer POW K) (done : List Vector3i) (c : Vector3i) :
    (done.foldl updateVoxel s).occupancyBuffer.at_ c =
        (if ∃ idx ∈ done, Congr (N POW) idx c then settle (s.flagBuffer.at_ c) (s.occupancyBuffer.at_ c)
        else s.occupancyBuffer.at_ c) ∧
      (done.foldl updateVoxel s).flagBuffer.at_ c =
        if ∃ idx ∈ done, Congr (N POW) idx c then settleFlag (s.flagBuffer.at_ c) (s.occupancyBuffer.at_ c)
        else s.flagBuffer.at_ c := by
  induction done using List.reverseRecOn with
  | nil => simp
  | append_singleton done idx ih =>
    obtain ⟨hocc, hflag⟩ := ih
    have hiff : (∃ e ∈ done ++ [idx], Congr (N POW) e c) ↔
        (∃ e ∈ done, Congr (N POW) e c) ∨ Congr (N POW) idx c := by
      simp only [List.mem_append, List.mem_singleton, or_and_right, exists_or, exists_eq_left]
    obtain ⟨hocc', hflag'⟩ := updateVoxel_spec (done.foldl updateVoxel s) idx c
    rw [List.foldl_concat, hocc', hflag', hocc, hflag]
    simp only [hiff]
    by_cases hdone : ∃ e ∈ done, Congr (N POW) e c
    · -- a second visit finds the marks gone
      obtain ⟨hd, hf⟩ := settle_of_clear (has_settleFlag (s.flagBuffer.at_ c) (s.occupancyBuffer.at_ c))
        (settle (s.flagBuffer.at_ c) (s.occupancyBuffer.at_ c))
      simp only [hdone, true_or, if_true, hd, hf, ite_self, and_self]
    · simp only [hdone, false_or, if_false, and_self]

theorem frame_updateVoxel (s : RaycastRingBuffer POW K) (idx : Vector3i) : Frame s (s.updateVoxel idx) := by
  unfold updateVoxel updateOccupancy
  simp only
  split_ifs <;> exact ⟨rfl, rfl, rfl, rfl, rfl, rfl⟩

theorem frame_foldl_updateVoxel (s : RaycastRingBuffer POW K) (done : List Vector3i) :
    Frame s (done.foldl updateVoxel s) :=
  Run.invariant (I := fun t => Frame s t) (fun _ idx h => h.trans (frame_updateVoxel _ idx)) (Frame.refl s)

theorem widens_updateVoxel (s : RaycastRingBuffer POW K) (idx : Vector3i) : Widens s (s.updateVoxel idx) := by
  have hsame := Widens.refl s
  unfold updateVoxel updateOccupancy
  simp only
  split_ifs
  exacts [hsame.trans (widens_stretch _ _), hsame, hsame.trans (widens_stretch _ _), hsame, hsame]

/-- A voxel that becomes occupied, or stops being so, is in the updated box. -/
theorem covers_updateVoxel_of_ne (h : (s.updateVoxel idx).occupiedAt idx ≠ s.occupiedAt idx) :
    (s.updateVoxel idx).Covers idx := by
  have hsame : ∀ add, (s.updateOccupancy add idx).occupiedAt idx = isOccupied (add (s.occupancyBuffer.at_ idx)) := by
    intro add
    rw [occupiedAt, occupancy_updateOccupancy, if_pos (Congr.refl _ _)]
  have hcovers : ∀ add, (s.updateOccupancy add idx).occupiedAt idx ≠ s.occupiedAt idx →
      (s.updateOccupancy add idx).Covers idx := by
    intro add hne
    rw [hsame, occupiedAt] at hne
    unfold updateOccupancy
    simp only
    rw [if_pos hne.symm]
    exact covers_stretch _ _
  unfold updateVoxel at h ⊢
  split
  · next hocc =>
    rw [if_pos hocc] at h
    exact hcovers addHit h
  · next hocc =>
    rw [if_neg hocc] at h
    split
    · next hfree =>
      rw [if_pos hfree] at h
      exact hcovers addMiss h
    · next hfree =>
      rw [if_neg hfree] at h
      exact absurd rfl h

theorem widens_foldl_updateVoxel (s : RaycastRingBuffer POW K) (done : List Vector3i) :
    Widens s (done.foldl updateVoxel s) :=
  Run.invariant (I := fun t => Widens s t) (fun _ idx h => h.trans (widens_updateVoxel _ idx)) (Widens.refl s)

theorem covers_foldl_updateVoxel_of_ne (done : List Vector3i)
    (h : (done.foldl updateVoxel s).occupiedAt c ≠ s.occupiedAt c) :
    ∃ idx, Congr (N POW) idx c ∧ idx ∈ done ∧ (done.foldl updateVoxel s).Covers idx := by
  induction done using List.reverseRecOn with
  | nil => exact absurd rfl h
  | append_singleton done idx ih =>
    rw [List.foldl_concat] at h ⊢
    by_cases hbefore : (done.foldl updateVoxel s).occupiedAt c = s.occupiedAt c
    · have hcongr : Congr (N POW) idx c := by
        by_contra hcongr
        rw [← hbefore] at h
        refine h ?_
        unfold occupiedAt
        rw [(updateVoxel_spec _ idx c).1, if_neg hcongr]
      have hidx : ∀ t : RaycastRingBuffer POW K, t.occupiedAt idx = t.occupiedAt c := fun t =>
        congrArg isOccupied (RingBufferBase.at_congr hcongr)
      refine ⟨idx, hcongr, by simp, covers_updateVoxel_of_ne ?_⟩
      rw [hidx, hidx, hbefore]
      exact h
    · obtain ⟨e, hcongr, hmem, hcovers⟩ := ih hbefore
      exact ⟨e, hcongr, List.mem_append_left _ hmem, (widens_updateVoxel _ idx).covers hcovers⟩

end

/-! ### The whole insertion -/

variable [Field K] [LinearOrder K] [FloorRing K] {s : RaycastRingBuffer POW K} {maxScalar : K} {origin : Fin 3 → K}
  {cloud : List (Fin 3 → K)} {c : Vector3i}

/-- The variables after the first pass. -/
def marking (s : RaycastRingBuffer POW K) (maxScalar : K) (cloud : List (Fin 3 → K)) (origin : Fin 3 → K) :
    Marking POW K :=
  cloud.foldl (markPoint maxScalar origin)
    ⟨s, s.occupancyBuffer.getIdx origin, s.occupancyBuffer.getIdx origin⟩

/-- The voxels of the second and the third pass. -/
def markedBox (s : RaycastRingBuffer POW K) (maxScalar : K) (cloud : List (Fin 3 → K)) (origin : Fin 3 → K) :
    List Vector3i :=
  box (s.marking maxScalar cloud origin).minIdx (s.marking maxScalar cloud origin).maxIdx

/-- The state after the second pass. -/
def withRays (s : RaycastRingBuffer POW K) (maxScalar : K) (cloud : List (Fin 3 → K)) (origin : Fin 3 → K) :
    RaycastRingBuffer POW K :=
  (s.markedBox maxScalar cloud origin).foldl (insertRay (s.occupancyBuffer.getIdx origin))
    (s.marking maxScalar cloud origin).state

theorem insertPointCloud_eq (horigin : s.occupancyBuffer.insideVolume (s.occupancyBuffer.getIdx origin) = true) :
    s.insertPointCloud maxScalar cloud origin =
      (s.markedBox maxScalar cloud origin).foldl updateVoxel (s.withRays maxScalar cloud origin) := by
  unfold insertPointCloud
  simp only [horigin, Bool.not_true, Bool.false_eq_true, if_false]
  rfl

theorem insertPointCloud_of_outside
    (horigin : ¬ s.occupancyBuffer.insideVolume (s.occupancyBuffer.getIdx origin) = true) :
    s.insertPointCloud maxScalar cloud origin = s := by
  unfold insertPointCloud
  simp only [Bool.eq_false_iff.2 horigin, Bool.not_false, if_true]

theorem rayEnd_mem_markedBox {v : Fin 3 → K} (hv : v ∈ cloud) :
    s.rayEnd maxScalar origin v ∈ s.markedBox maxScalar cloud origin :=
  mem_box.2 ((s.marked maxScalar origin _ cloud).end_mem v hv)

/-- A ray goes from a voxel of the box to the origin, which is in it. -/
theorem line_subset_markedBox {idx p : Vector3i} (hidx : idx ∈ s.markedBox maxScalar cloud origin)
    (hp : p ∈ line idx (s.occupancyBuffer.getIdx origin)) : p ∈ s.markedBox maxScalar cloud origin := by
  obtain ⟨i, hi, rfl⟩ := mem_line.1 hp
  refine mem_box.2 fun j => ?_
  have hbetween := linePoint_between (p := idx) (o := s.occupancyBuffer.getIdx origin) (i := i)
    ⟨by omega, by have := rayLength_nonneg idx (s.occupancyBuffer.getIdx origin); omega⟩ j
  have horigin := (s.marked maxScalar origin (s.occupancyBuffer.getIdx origin) cloud).origin_mem j
  have hend := mem_box.1 hidx j
  unfold marking at *
  omega

/-- The flags after the rays: those before, the marks of the ends, and those of the voxels on the rays. -/
theorem has_withRays (c : Vector3i) (h : Flag) : ((s.withRays maxScalar cloud origin).flagBuffer.at_ c).has h = true ↔
    ((s.flagBuffer.at_ c).has h = true ∨
      ∃ v ∈ cloud, Congr (N POW) (s.rayEnd maxScalar origin v) c ∧ (s.endMark v).has h = true) ∨
    (∃ idx ∈ s.markedBox maxScalar cloud origin,
      ((s.marking maxScalar cloud origin).state.flagBuffer.at_ idx).has (Flag.occupied ||| Flag.freeRay) = true ∧
        ∃ p ∈ line idx (s.occupancyBuffer.getIdx origin), Congr (N POW) p c) ∧ Flag.free.has h = true := by
  rw [withRays, (rayed _ _ _).has_iff, marking, (s.marked maxScalar origin _ cloud).has_iff]

/-- The first two passes write flags only. -/
theorem withRays_eq (s : RaycastRingBuffer POW K) (maxScalar : K) (cloud : List (Fin 3 → K)) (origin : Fin 3 → K) :
    s.withRays maxScalar cloud origin =
      { s with flagBuffer := (s.withRays maxScalar cloud origin).flagBuffer } := by
  have hrayed := (rayed (s.marking maxScalar cloud origin).state (s.occupancyBuffer.getIdx origin)
    (s.markedBox maxScalar cloud origin)).state_eq
  have hmarked := (s.marked maxScalar origin (s.occupancyBuffer.getIdx origin) cloud).state_eq
  unfold withRays
  rw [hrayed]
  unfold marking
  rw [hmarked]

theorem frame_withRays (s : RaycastRingBuffer POW K) (maxScalar : K) (cloud : List (Fin 3 → K))
    (origin : Fin 3 → K) : Frame s (s.withRays maxScalar cloud origin) := by
  have hrayed := rayed (s.marking maxScalar cloud origin).state (s.occupancyBuffer.getIdx origin)
    (s.markedBox maxScalar cloud origin)
  have hmarked := s.marked maxScalar origin (s.occupancyBuffer.getIdx origin) cloud
  have heq := s.withRays_eq maxScalar cloud origin
  refine ⟨by rw [heq], by rw [heq], by rw [heq], by rw [heq], hrayed.offset_eq.trans hmarked.offset_eq,
    hrayed.emptyElement_eq.trans hmarked.emptyElement_eq⟩

theorem frame_insertPointCloud (s : RaycastRingBuffer POW K) (maxScalar : K) (cloud : List (Fin 3 → K))
    (origin : Fin 3 → K) : Frame s (s.insertPointCloud maxScalar cloud origin) := by
  by_cases horigin : s.occupancyBuffer.insideVolume (s.occupancyBuffer.getIdx origin) = true
  · rw [insertPointCloud_eq horigin]
    exact (s.frame_withRays maxScalar cloud origin).trans (frame_foldl_updateVoxel _ _)
  · rw [insertPointCloud_of_outside horigin]
    exact Frame.refl s

theorem widens_withRays (s : RaycastRingBuffer POW K) (maxScalar : K) (cloud : List (Fin 3 → K)) (origin : Fin 3 → K) :
    Widens s (s.withRays maxScalar cloud origin) := by
  rw [withRays_eq]
  exact Widens.refl s

theorem widens_insertPointCloud (s : RaycastRingBuffer POW K) (maxScalar : K) (cloud : List (Fin 3 → K))
    (origin : Fin 3 → K) : Widens s (s.insertPointCloud maxScalar cloud origin) := by
  by_cases horigin : s.occupancyBuffer.insideVolume (s.occupancyBuffer.getIdx origin) = true
  · rw [insertPointCloud_eq horigin]
    exact (s.widens_withRays maxScalar cloud origin).trans (widens_foldl_updateVoxel _ _)
  · rw [insertPointCloud_of_outside horigin]
    exact Widens.refl s

/-- Every mark is in the cell of a voxel of the box, where the third pass takes it back. -/
theorem clear_insertPointCloud (hclear : Clear s.flagBuffer) :
    Clear (s.insertPointCloud maxScalar cloud origin).flagBuffer := by
  intro c
  by_cases horigin : s.occupancyBuffer.insideVolume (s.occupancyBuffer.getIdx origin) = true
  · rw [insertPointCloud_eq horigin, (foldl_updateVoxel _ _ c).2]
    split
    · exact has_settleFlag _ _
    · next hbox =>
      rw [Bool.eq_false_iff, ne_eq, has_withRays]
      rintro ((h | ⟨v, hv, hcongr, -⟩) | ⟨⟨idx, hidx, -, p, hp, hcongr⟩, -⟩)
      · exact Bool.eq_false_iff.1 (hclear c) h
      · exact hbox ⟨_, rayEnd_mem_markedBox hv, hcongr⟩
      · exact hbox ⟨p, line_subset_markedBox hidx hp, hcongr⟩
  · rw [insertPointCloud_of_outside horigin]
    exact hclear c

end RaycastRingBuffer
end A17.Ewok
