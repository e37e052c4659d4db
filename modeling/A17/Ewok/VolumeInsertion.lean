import A17.Ewok.InsertPointCloud
import Mathlib.Tactic.LinearCombination
import Mathlib.Tactic.Positivity

/-!
# Inserting a point cloud from within the volume

When the origin is not in the outer half of the outermost voxels, the ray to a point outside the volume is cut off in
the volume (`rayEnd_inside`). Then all marks are on voxels of the volume.
-/

namespace A17.Ewok
open GridLoops GridWindow
variable {POW : Nat} {K : Type}

namespace RaycastRingBuffer

section
variable [Field K] [LinearOrder K] [FloorRing K] {s : RaycastRingBuffer POW K} {maxScalar : K}
  {origin : Fin 3 → K} {cloud : List (Fin 3 → K)} {c : Vector3i}

/-- The origin and the ends of the rays are voxels of the volume. -/
structure RaysInside (s : RaycastRingBuffer POW K) (maxScalar : K) (cloud : List (Fin 3 → K))
    (origin : Fin 3 → K) : Prop where
  origin_inside : Inside (N POW) s.occupancyBuffer.offset (s.occupancyBuffer.getIdx origin)
  end_inside : ∀ v ∈ cloud, Inside (N POW) s.occupancyBuffer.offset (s.rayEnd maxScalar origin v)

theorem RaysInside.of_mem_markedBox (h : s.RaysInside maxScalar cloud origin)
    (hc : c ∈ s.markedBox maxScalar cloud origin) : Inside (N POW) s.occupancyBuffer.offset c := by
  intro i
  have hhull := (s.marked maxScalar origin (s.occupancyBuffer.getIdx origin) cloud).hull s.occupancyBuffer.offset
    (fun i => s.occupancyBuffer.offset i + N POW - 1) (fun i => by have := h.origin_inside i; omega)
    (fun v hv i => by have := h.end_inside v hv i; omega) i
  have hbox := mem_box.1 hc i
  unfold marking at hbox
  omega

/-- The only voxel of the box in the cell of a voxel of the volume is that voxel. -/
theorem RaysInside.exists_congr_iff (h : s.RaysInside maxScalar cloud origin)
    (hc : Inside (N POW) s.occupancyBuffer.offset c) :
    (∃ idx ∈ s.markedBox maxScalar cloud origin, Congr (N POW) idx c) ↔ c ∈ s.markedBox maxScalar cloud origin := by
  constructor
  · rintro ⟨idx, hidx, hcongr⟩
    rwa [← (h.of_mem_markedBox hidx).eq (cast_N_pos POW) hc hcongr]
  · intro hmem
    exact ⟨c, hmem, Congr.refl _ _⟩

theorem endMark_occupied {v : Fin 3 → K} : (s.endMark v).has Flag.occupied = true ↔
    s.occupancyBuffer.insideVolume (s.occupancyBuffer.getIdx v) = true := by
  unfold endMark
  split
  · next h => exact ⟨fun _ => h, fun _ => by decide⟩
  · next h => exact ⟨fun hf => absurd hf (by decide), fun hf => absurd hf h⟩

theorem endMark_has (v : Fin 3 → K) : (s.endMark v).has (Flag.occupied ||| Flag.freeRay) = true ∧
    (s.endMark v).has Flag.updated = false := by
  unfold endMark
  split <;> decide

/-- After the rays the occupied mark is on the voxels that hold a point. -/
theorem RaysInside.has_occupied (h : s.RaysInside maxScalar cloud origin) (hclear : Clear s.flagBuffer)
    (hc : Inside (N POW) s.occupancyBuffer.offset c) :
    ((s.withRays maxScalar cloud origin).flagBuffer.at_ c).has Flag.occupied = true ↔
      ∃ v ∈ cloud, s.occupancyBuffer.getIdx v = c := by
  have hnone : ¬ (s.flagBuffer.at_ c).has Flag.occupied = true := fun hf =>
    Bool.eq_false_iff.1 (hclear c) (has_insertion.2 (.inl hf))
  have hfree : ¬ Flag.free.has Flag.occupied = true := by decide
  rw [has_withRays]
  simp only [hnone, hfree, Bool.false_eq_true, and_false, or_false, false_or, endMark_occupied]
  refine exists_congr fun v => and_congr_right fun hv => ⟨?_, ?_⟩
  · rintro ⟨hcongr, hin⟩
    have heq := (h.end_inside v hv).eq (cast_N_pos POW) hc hcongr
    rwa [rayEnd, if_pos hin] at heq
  · rintro rfl
    have hin := RingBufferBase.insideVolume_iff.2 hc
    rw [rayEnd, if_pos hin]
    exact ⟨Congr.refl _ _, hin⟩

theorem mem_line_first (p o : Vector3i) : p ∈ line p o := mem_line.2 ⟨0, Nat.zero_le _, linePoint_first p o⟩

/-- The other marks are on the voxels of the rays. -/
theorem RaysInside.has_free (h : s.RaysInside maxScalar cloud origin) (hclear : Clear s.flagBuffer)
    (hc : Inside (N POW) s.occupancyBuffer.offset c) :
    (((s.withRays maxScalar cloud origin).flagBuffer.at_ c).has Flag.insertion = true ↔
      ∃ v ∈ cloud, c ∈ line (s.rayEnd maxScalar origin v) (s.occupancyBuffer.getIdx origin)) := by
  have hN := cast_N_pos POW
  have hnone := Bool.eq_false_iff.1 (hclear c)
  have hmark : ∀ f : Flag, f.has (Flag.occupied ||| Flag.freeRay) = true → f.has Flag.insertion = true := by
    intro f hf
    have hsplit : Flag.insertion = (Flag.occupied ||| Flag.freeRay) ||| Flag.free := by decide
    rw [hsplit, Flag.has_or_right]
    exact .inl hf
  have hends : ∀ idx, ((s.marking maxScalar cloud origin).state.flagBuffer.at_ idx).has
      (Flag.occupied ||| Flag.freeRay) = true ↔
        ∃ v ∈ cloud, Congr (N POW) (s.rayEnd maxScalar origin v) idx := by
    intro idx
    have hnone' : ¬ (s.flagBuffer.at_ idx).has (Flag.occupied ||| Flag.freeRay) = true := fun hf =>
      Bool.eq_false_iff.1 (hclear idx) (hmark _ hf)
    rw [marking, (s.marked maxScalar origin _ cloud).has_iff]
    simp only [hnone', Bool.false_eq_true, false_or, (endMark_has _).1, and_true]
  rw [has_withRays]
  constructor
  · rintro ((hf | ⟨v, hv, hcongr, -⟩) | ⟨⟨idx, hidx, hend, p, hp, hcongr⟩, -⟩)
    · exact absurd hf hnone
    · rw [← (h.end_inside v hv).eq hN hc hcongr]
      exact ⟨v, hv, mem_line_first _ _⟩
    · obtain ⟨v, hv, hvidx⟩ := (hends idx).1 hend
      rw [← (h.end_inside v hv).eq hN (h.of_mem_markedBox hidx) hvidx] at hp hidx
      rw [← (h.of_mem_markedBox (line_subset_markedBox hidx hp)).eq hN hc hcongr]
      exact ⟨v, hv, hp⟩
  · rintro ⟨v, hv, hp⟩
    refine .inr ⟨⟨_, rayEnd_mem_markedBox hv, (hends _).2 ⟨v, hv, Congr.refl _ _⟩, c, hp, Congr.refl _ _⟩, ?_⟩
    decide

theorem insertPointCloud_settled (h : s.RaysInside maxScalar cloud origin) (hclear : Clear s.flagBuffer)
    (hc : Inside (N POW) s.occupancyBuffer.offset c) :
    (s.insertPointCloud maxScalar cloud origin).occupancyBuffer.at_ c =
        settle ((s.withRays maxScalar cloud origin).flagBuffer.at_ c) (s.occupancyBuffer.at_ c) ∧
      (s.insertPointCloud maxScalar cloud origin).flagBuffer.at_ c =
        settleFlag ((s.withRays maxScalar cloud origin).flagBuffer.at_ c) (s.occupancyBuffer.at_ c) := by
  have hocc : (s.withRays maxScalar cloud origin).occupancyBuffer = s.occupancyBuffer := by rw [withRays_eq]
  rw [insertPointCloud_eq (RingBufferBase.insideVolume_iff.2 h.origin_inside)]
  obtain ⟨hdata, hflag⟩ := foldl_updateVoxel (s.withRays maxScalar cloud origin) (s.markedBox maxScalar cloud origin) c
  rw [hdata, hflag, hocc]
  by_cases hbox : c ∈ s.markedBox maxScalar cloud origin
  · rw [if_pos ((h.exists_congr_iff hc).2 hbox), if_pos ((h.exists_congr_iff hc).2 hbox)]
    exact ⟨rfl, rfl⟩
  · -- no ray comes out of the box, so the voxel has no mark
    have hfree : ((s.withRays maxScalar cloud origin).flagBuffer.at_ c).has Flag.insertion = false := by
      rw [Bool.eq_false_iff, ne_eq, h.has_free hclear hc]
      rintro ⟨v, hv, hp⟩
      exact hbox (line_subset_markedBox (rayEnd_mem_markedBox hv) hp)
    obtain ⟨hd, hf⟩ := settle_of_clear hfree (s.occupancyBuffer.at_ c)
    rw [hd, hf, ite_self, ite_self]
    exact ⟨rfl, rfl⟩

/-- A voxel that holds points has one hit, another one that rays go through one miss, and the rest is as before. -/
theorem occupancy_insertPointCloud (h : s.RaysInside maxScalar cloud origin) (hclear : Clear s.flagBuffer)
    (hc : Inside (N POW) s.occupancyBuffer.offset c) :
    ((∃ v ∈ cloud, s.occupancyBuffer.getIdx v = c) →
      (s.insertPointCloud maxScalar cloud origin).occupancyBuffer.at_ c = addHit (s.occupancyBuffer.at_ c)) ∧
    ((¬ ∃ v ∈ cloud, s.occupancyBuffer.getIdx v = c) →
      (∃ v ∈ cloud, c ∈ line (s.rayEnd maxScalar origin v) (s.occupancyBuffer.getIdx origin)) →
      (s.insertPointCloud maxScalar cloud origin).occupancyBuffer.at_ c = addMiss (s.occupancyBuffer.at_ c)) ∧
    ((¬ ∃ v ∈ cloud, c ∈ line (s.rayEnd maxScalar origin v) (s.occupancyBuffer.getIdx origin)) →
      (s.insertPointCloud maxScalar cloud origin).occupancyBuffer.at_ c = s.occupancyBuffer.at_ c) := by
  have hocc := h.has_occupied hclear hc
  have hfree := h.has_free hclear hc
  rw [(insertPointCloud_settled h hclear hc).1]
  refine ⟨fun hhit => ?_, fun hhit hray => ?_, fun hray => ?_⟩
  · rw [settle, if_pos (hocc.2 hhit)]
  · rw [settle, if_neg (mt hocc.1 hhit), if_pos]
    exact (has_insertion.1 (hfree.2 hray)).resolve_left (mt hocc.1 hhit)
  · exact (settle_of_clear (Bool.eq_false_iff.2 (mt hfree.1 hray)) _).1

/-- The voxels that are flagged as updated are those that became occupied, or stopped being so. -/
theorem isUpdated_insertPointCloud (h : s.RaysInside maxScalar cloud origin) (hclear : Clear s.flagBuffer)
    (hc : Inside (N POW) s.occupancyBuffer.offset c) :
    (s.insertPointCloud maxScalar cloud origin).isUpdated c = true ↔ s.isUpdated c = true ∨
      (s.insertPointCloud maxScalar cloud origin).occupiedAt c ≠ s.occupiedAt c := by
  obtain ⟨hdata, hflag⟩ := insertPointCloud_settled h hclear hc
  have hbefore : ((s.withRays maxScalar cloud origin).flagBuffer.at_ c).has Flag.updated = true ↔
      s.isUpdated c = true := by
    have hfree : ¬ Flag.free.has Flag.updated = true := by decide
    rw [has_withRays]
    simp only [(endMark_has _).2, hfree, Bool.false_eq_true, and_false, exists_const, or_false]
    rfl
  unfold isUpdated at hbefore ⊢
  unfold occupiedAt
  rw [hdata, hflag, ← hbefore]
  generalize (s.withRays maxScalar cloud origin).flagBuffer.at_ c = f
  generalize s.occupancyBuffer.at_ c = d
  have hkeep : (f &&& ~~~Flag.insertion).has Flag.updated = f.has Flag.updated := Flag.has_and_not
  unfold settleFlag
  split
  · split
    · next hne =>
      have hset : Flag.updated.has Flag.updated = true := by decide
      rw [Flag.has_or_left]
      exact ⟨fun _ => .inr hne.symm, fun _ => .inr hset⟩
    · next heq =>
      rw [hkeep]
      exact ⟨.inl, fun h => h.resolve_right fun hne => heq hne.symm⟩
  · next hclear =>
    rw [(settle_of_clear (Bool.eq_false_iff.2 hclear) d).1]
    exact ⟨.inl, fun h => h.resolve_right fun hne => hne rfl⟩

/-- They are in the updated box. -/
theorem covers_insertPointCloud (h : s.RaysInside maxScalar cloud origin)
    (hc : Inside (N POW) s.occupancyBuffer.offset c)
    (hne : (s.insertPointCloud maxScalar cloud origin).occupiedAt c ≠ s.occupiedAt c) :
    (s.insertPointCloud maxScalar cloud origin).Covers c := by
  rw [insertPointCloud_eq (RingBufferBase.insideVolume_iff.2 h.origin_inside)] at hne ⊢
  have hsame : (s.withRays maxScalar cloud origin).occupiedAt c = s.occupiedAt c := by rw [withRays_eq]; rfl
  rw [← hsame] at hne
  obtain ⟨idx, hcongr, hidx, hcovers⟩ := covers_foldl_updateVoxel_of_ne _ hne
  rwa [← (h.of_mem_markedBox hidx).eq (cast_N_pos POW) hc hcongr]

end

/-! ### Where rays are cut off -/

section
variable [Field K] [LinearOrder K]

theorem ite_pos_lt_of_nonpos {t m : K} (ht : t ≤ 0) : (if t > 0 ∧ t < m then t else m) = m :=
  if_neg fun h => absurd h.1 (not_lt.2 ht)

theorem ite_pos_lt_of_pos {t m : K} (ht : 0 < t) : (if t > 0 ∧ t < m then t else m) = min m t := by
  split
  · next h => exact (min_eq_right h.2.le).symm
  · next h => exact (min_eq_left (not_lt.1 fun hlt => h ⟨ht, hlt⟩)).symm

end

variable [Field K] [LinearOrder K] [IsStrictOrderedRing K] [FloorRing K] {s : RaycastRingBuffer POW K}
  {maxScalar : K} {origin : Fin 3 → K} {cloud : List (Fin 3 → K)} {c : Vector3i}

/-- The first centre of a voxel of the volume on an axis. -/
def firstCentre (s : RaycastRingBuffer POW K) (i : Fin 3) : K := (s.occupancyBuffer.offset i + 0.5) * s.resolution

def lastCentre (s : RaycastRingBuffer POW K) (i : Fin 3) : K :=
  (s.occupancyBuffer.offset i + (N POW : Int) - 0.5) * s.resolution

/-- The point is between the centres of the outermost voxels. -/
def Interior (s : RaycastRingBuffer POW K) (point : Fin 3 → K) : Prop :=
  ∀ i, s.firstCentre i < point i ∧ point i < s.lastCentre i

omit [FloorRing K] in
/-- Of the two planes of an axis the ray meets the one it is going to, and up to there it is between them. -/
theorem crossing_spec (diff : Fin 3 → K) {minT : K} {i : Fin 3} (hmin : 0 < minT)
    (ho : s.firstCentre i < origin i ∧ origin i < s.lastCentre i) :
    0 < s.crossing origin diff minT i ∧ s.crossing origin diff minT i ≤ minT ∧
      ∀ t, 0 ≤ t → t ≤ s.crossing origin diff minT i →
        s.firstCentre i ≤ origin i + t * diff i ∧ origin i + t * diff i ≤ s.lastCentre i := by
  have hcrossing : s.crossing origin diff minT i = if |diff i| > 0 then
      (fun m => if (s.lastCentre i - origin i) / diff i > 0 ∧ (s.lastCentre i - origin i) / diff i < m then
        (s.lastCentre i - origin i) / diff i else m)
      (if (s.firstCentre i - origin i) / diff i > 0 ∧ (s.firstCentre i - origin i) / diff i < minT then
        (s.firstCentre i - origin i) / diff i else minT) else minT := rfl
  have hfirst : s.firstCentre i - origin i < 0 := sub_neg.2 ho.1
  have hlast : 0 < s.lastCentre i - origin i := sub_pos.2 ho.2
  rw [hcrossing]
  rcases lt_trichotomy (diff i) 0 with hneg | hzero | hpos
  · have hexit : 0 < (s.firstCentre i - origin i) / diff i := div_pos_of_neg_of_neg hfirst hneg
    rw [if_pos (abs_pos.2 hneg.ne), ite_pos_lt_of_pos hexit]
    simp only
    rw [ite_pos_lt_of_nonpos (div_nonpos_of_nonneg_of_nonpos hlast.le hneg.le)]
    refine ⟨lt_min hmin hexit, min_le_left _ _, fun t ht0 ht => ⟨?_, ?_⟩⟩
    · have h := (le_div_iff_of_neg hneg).1 (ht.trans (min_le_right _ _))
      linarith
    · have h := mul_nonpos_of_nonneg_of_nonpos ht0 hneg.le
      linarith
  · rw [hzero, abs_zero, if_neg (lt_irrefl 0)]
    refine ⟨hmin, le_rfl, fun t _ _ => ?_⟩
    rw [mul_zero, add_zero]
    exact ⟨ho.1.le, ho.2.le⟩
  · have hexit : 0 < (s.lastCentre i - origin i) / diff i := div_pos hlast hpos
    rw [if_pos (abs_pos.2 hpos.ne'), ite_pos_lt_of_nonpos (div_nonpos_of_nonpos_of_nonneg hfirst.le hpos.le)]
    simp only
    rw [ite_pos_lt_of_pos hexit]
    refine ⟨lt_min hmin hexit, min_le_left _ _, fun t ht0 ht => ⟨?_, ?_⟩⟩
    · have h := mul_nonneg ht0 hpos.le
      linarith
    · have h := (le_div_iff₀ hpos).1 (ht.trans (min_le_right _ _))
      linarith

omit [FloorRing K] in
theorem closestPoint_between (hmax : 0 < maxScalar) (ho : s.Interior origin) (v : Fin 3 → K) (i : Fin 3) :
    s.firstCentre i ≤ s.closestPointInVolume maxScalar v origin i ∧
      s.closestPointInVolume maxScalar v origin i ≤ s.lastCentre i := by
  let diff := fun i => v i - origin i
  have h0 := crossing_spec diff (i := 0) hmax (ho 0)
  have h1 := crossing_spec diff (i := 1) h0.1 (ho 1)
  have h2 := crossing_spec diff (i := 2) h1.1 (ho 2)
  show s.firstCentre i ≤ origin i + s.crossing origin diff (s.crossing origin diff
      (s.crossing origin diff maxScalar 0) 1) 2 * diff i ∧ _
  fin_cases i
  exacts [h0.2.2 _ h2.1.le (h2.2.1.trans h1.2.1), h1.2.2 _ h2.1.le h2.2.1, h2.2.2 _ h2.1.le le_rfl]

/-- A point between the outermost centres is in a voxel of the volume. -/
theorem inside_getIdx (hres : 0 < s.resolution) (hocc : s.occupancyBuffer.resolution = s.resolution)
    {point : Fin 3 → K} (h : ∀ i, s.firstCentre i ≤ point i ∧ point i ≤ s.lastCentre i) :
    Inside (N POW) s.occupancyBuffer.offset (s.occupancyBuffer.getIdx point) := by
  intro i
  obtain ⟨hle, hlt⟩ := h i
  have hhalf : (0 : K) < 0.5 := by norm_num
  unfold firstCentre at hle
  unfold lastCentre at hlt
  rw [← le_div_iff₀ hres] at hle
  rw [← div_le_iff₀ hres] at hlt
  unfold RingBufferBase.getIdx
  rw [hocc]
  refine ⟨Int.le_floor.2 (by linarith), Int.floor_lt.2 ?_⟩
  push_cast at hlt ⊢
  linarith

theorem rayEnd_inside (hres : 0 < s.resolution) (hocc : s.occupancyBuffer.resolution = s.resolution)
    (hmax : 0 < maxScalar) (ho : s.Interior origin) (v : Fin 3 → K) :
    Inside (N POW) s.occupancyBuffer.offset (s.rayEnd maxScalar origin v) := by
  unfold rayEnd
  split
  · next hin => exact RingBufferBase.insideVolume_iff.1 hin
  · exact inside_getIdx hres hocc (closestPoint_between hmax ho v)

theorem raysInside (hres : 0 < s.resolution) (hocc : s.occupancyBuffer.resolution = s.resolution)
    (hmax : 0 < maxScalar) (ho : s.Interior origin) : s.RaysInside maxScalar cloud origin :=
  ⟨inside_getIdx hres hocc fun i => ⟨(ho i).1.le, (ho i).2.le⟩, fun v _ => rayEnd_inside hres hocc hmax ho v⟩

end RaycastRingBuffer
end A17.Ewok
