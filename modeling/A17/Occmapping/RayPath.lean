import A17.Occmapping.RayKeys
import Mathlib.Analysis.Real.Sqrt

/-!
# Rays go straight

What is known of a ray while its cells are cast (`OnRay`): where the borders are, and that the voxel has the point in it
to which the ray has come. A key that wraps around at the end of the tree is too far away to become a cell. The cells
are the voxels that the ray goes through, up to the one at which it ends (`Traces`).
-/

namespace A17.Occmapping
open GridLoops Truncation
variable {K : Type}

/-- In how many faces two voxels differ. -/
def keyDist (o k : OcTreeKey) : Int := ∑ i, |((k i).toNat : Int) - (o i).toNat|

/-- The cell comes after `a`, one further from the first voxel. -/
structure Follows (o : OcTreeKey) (a b : OccPrevKey K) : Prop where
  prevKey_eq : b.prevKey = a.key
  keyDist_eq : keyDist o b.key = keyDist o a.key + 1

/-- A ray from the voxel `o`. -/
structure Outward (o : OcTreeKey) (ray : List (OccPrevKey K)) : Prop where
  head : ∀ e ∈ ray.head?, e.key = o ∧ e.prevKey = ROOT_KEY
  chain : ray.IsChain (Follows o)

theorem Outward.nodup {o : OcTreeKey} {ray : List (OccPrevKey K)} (h : Outward o ray) :
    (ray.map OccPrevKey.key).Nodup := by
  have hlt : ray.IsChain fun a b => keyDist o a.key < keyDist o b.key :=
    h.chain.imp fun a b hab => by rw [hab.keyDist_eq]; exact lt_add_one _
  have hpairwise : ray.Pairwise fun a b => keyDist o a.key < keyDist o b.key :=
    haveI : IsTrans (OccPrevKey K) fun a b => keyDist o a.key < keyDist o b.key := ⟨fun _ _ _ => lt_trans⟩
    List.isChain_iff_pairwise.1 hlt
  refine List.pairwise_map.2 (hpairwise.imp fun hab heq => ?_)
  rw [heq] at hab
  exact lt_irrefl _ hab

theorem mem_of_isChain {α : Type} {r : α → α → Prop} {l : List α} (h : l.IsChain r) {e : α} (he : e ∈ l) :
    e ∈ l.head? ∨ ∃ a ∈ l, r a e := by
  induction h with
  | nil => cases he
  | singleton a =>
    obtain rfl := List.mem_singleton.1 he
    exact .inl rfl
  | @cons_cons a b l hab h ih =>
    rcases List.mem_cons.1 he with rfl | he
    · exact .inl rfl
    · rcases ih he with hhead | ⟨c, hc, hce⟩
      · obtain rfl : b = e := by simpa using hhead
        exact .inr ⟨a, by simp, hab⟩
      · exact .inr ⟨c, List.mem_cons_of_mem _ hc, hce⟩

theorem Outward.prev {o : OcTreeKey} {ray : List (OccPrevKey K)} (h : Outward o ray) {e : OccPrevKey K} (he : e ∈ ray) :
    e.key = o ∧ e.prevKey = ROOT_KEY ∨ ∃ a ∈ ray, Follows o a e :=
  (mem_of_isChain h.chain he).imp_left fun hhead => h.head e hhead

section
variable [Field K] [LinearOrder K]

def pointAt (r : Ray K) (u : K) : Fin 3 → K := fun i => r.origin i + u * r.direction i

namespace RobustOcTree

/-- The point is in the voxel, or on its border. -/
def InVoxel (t : RobustOcTree K) (key : OcTreeKey) (point : Fin 3 → K) : Prop :=
  ∀ i, |point i - t.keyToCoord (key i)| ≤ t.parameters.octreeResolution * 0.5

/-- The squared distance of the voxel from the sensor, in voxels. -/
def squareDist (t : RobustOcTree K) (origin : Fin 3 → K) (key : OcTreeKey) : K :=
  t.squareDistFromOrig origin key 0 + t.squareDistFromOrig origin key 1 + t.squareDistFromOrig origin key 2

def InHeights (t : RobustOcTree K) (key : OcTreeKey) : Prop := t.minZKey ≤ key 2 ∧ key 2 ≤ t.maxZKey

/-- At `u` the ray is on the border over which it leaves the voxel. -/
def OnBorder (t : RobustOcTree K) (r : Ray K) (u : K) (key : OcTreeKey) (i : Fin 3) : Prop :=
  r.step i ≠ 0 ∧ pointAt r u i = t.keyToCoord (key i) + r.step i * t.parameters.octreeResolution * 0.5

/-- At `u` the ray goes over from a voxel into the next one. -/
def Enters (t : RobustOcTree K) (r : Ray K) (u : K) (key next : OcTreeKey) : Prop :=
  ∃ i, t.OnBorder r u key i ∧ ((next i).toNat : Int) = (key i).toNat + r.step i ∧ ∀ j, j ≠ i → next j = key j

/-- The voxel is at the end of the tree, in the direction in which the ray goes. -/
def AtEnd (r : Ray K) (key : OcTreeKey) (i : Fin 3) : Prop :=
  (key i).toNat = 0 ∧ r.step i = -1 ∨ (key i).toNat = 65535 ∧ r.step i = 1

/-- At `u` the ray goes out of the tree. -/
def Leaves (t : RobustOcTree K) (r : Ray K) (u : K) (key : OcTreeKey) : Prop :=
  ∃ i, t.OnBorder r u key i ∧ AtEnd r key i

/-- From `u` to `w` the ray goes through the voxels of the cells, out of each into the next one. -/
def Along (t : RobustOcTree K) (r : Ray K) : K → List (OccPrevKey K) → K → Prop
  | u, [], w => u = w
  | u, e :: ray, w => ∃ v, u ≤ v ∧ (∀ x, u ≤ x → x ≤ v → t.InVoxel e.key (pointAt r x)) ∧
      (∀ e' ∈ ray.head?, t.Enters r v e.key e'.key) ∧ t.Along r v ray w

/-- What the ray casting relies on. -/
structure Usable (t : RobustOcTree K) : Prop where
  resolution_pos : 0 < t.parameters.octreeResolution
  depthErrorResolution_pos : 0 < t.parameters.depthErrorResolution
  maxRange_nonneg : 0 ≤ t.parameters.maxRange
  /-- The tree is at least as wide as the rays reach. -/
  maxRange_le : 2 * t.parameters.maxRange ≤ 65535 * t.parameters.octreeResolution
  lt_doubleMax : 2 * t.parameters.maxRange + t.parameters.octreeResolution < t.doubleMax
  sqrt_nonneg : ∀ x, 0 ≤ x → 0 ≤ t.sqrt x
  sqrt_mul_self : ∀ x, 0 ≤ x → t.sqrt x * t.sqrt x = x
  keyToCoord_eq : ∀ k, t.keyToCoord k = ((k.toNat : K) - (treeMaxVal : K) + 0.5) * t.parameters.octreeResolution
  inVoxel : ∀ point key, t.coordToKeyChecked point = some key → t.InVoxel key point

/-- What is known when the ray has come to the time `u` and to the voxel of `s`. -/
structure OnRay (t : RobustOcTree K) (r : Ray K) (o : OcTreeKey) (u : K) (s : RayState K) : Prop where
  squareDist_eq : s.squareDistFromOrigVec = t.squareDistFromOrig r.origin s.currentKey
  tMax_eq : ∀ i, s.tMax i = if r.step i = 0 then t.doubleMax else
    (t.keyToCoord (s.currentKey i) + r.step i * t.parameters.octreeResolution * 0.5 - r.origin i) / r.direction i
  inVoxel : t.InVoxel s.currentKey (pointAt r u)
  away : ∀ i, 0 ≤ r.step i * (((s.currentKey i).toNat : Int) - (o i).toNat)

/-- The constants of a ray. -/
structure Straight (t : RobustOcTree K) (r : Ray K) : Prop where
  step_pos : ∀ i, r.step i = 1 ↔ 0 < r.direction i
  step_neg : ∀ i, r.step i = -1 ↔ r.direction i < 0
  step_zero : ∀ i, r.step i = 0 ↔ r.direction i = 0
  tDelta_eq : ∀ i, r.step i ≠ 0 → r.tDelta i = t.parameters.octreeResolution / |r.direction i|
  maxrange_eq : r.maxrangeScaled =
    t.parameters.maxRange / t.parameters.octreeResolution * (t.parameters.maxRange / t.parameters.octreeResolution)
  approx_le : r.probApproxMaxDistScaled ≤ r.maxrangeScaled
  unit : r.direction 0 * r.direction 0 + r.direction 1 * r.direction 1 + r.direction 2 * r.direction 2 = 1

end RobustOcTree
end

variable [Field K] [LinearOrder K] [IsStrictOrderedRing K]

theorem nextDim_le (tMax : Fin 3 → K) (i : Fin 3) : tMax (nextDim tMax) ≤ tMax i := by
  unfold nextDim
  split_ifs with h1 h2 h2 <;> fin_cases i <;> simp only [Fin.zero_eta, Fin.mk_one, Fin.reduceFinMk] <;> linarith

namespace RobustOcTree
variable {t : RobustOcTree K} {r : Ray K} {o : OcTreeKey} {u : K} {s : RayState K}

/-- Some direction of a ray is long enough. -/
theorem Straight.exists_half_le (h : t.Straight r) : ∃ i, 1 / 2 ≤ |r.direction i| := by
  by_contra hnot
  push Not at hnot
  have hsq : ∀ i, r.direction i * r.direction i ≤ 1 / 4 := by
    intro i
    have := hnot i
    have := abs_nonneg (r.direction i)
    rw [← abs_mul_abs_self]
    nlinarith
  have := h.unit
  linarith [hsq 0, hsq 1, hsq 2]

/-- The way from the sensor to the centre of the voxel. -/
theorem centre_sub_origin (ht : t.Usable) (origin : Fin 3 → K) (key : OcTreeKey) (i : Fin 3) :
    t.squareDistFromOrig origin key i * (t.parameters.octreeResolution * t.parameters.octreeResolution) =
      (t.keyToCoord (key i) - origin i) * (t.keyToCoord (key i) - origin i) := by
  have hres := ht.resolution_pos.ne'
  rw [ht.keyToCoord_eq]
  unfold squareDistFromOrig
  field_simp
  ring

theorem squareDistFromOrig_le (t : RobustOcTree K) (origin : Fin 3 → K) (key : OcTreeKey) (i : Fin 3) :
    t.squareDistFromOrig origin key i ≤ t.squareDist origin key := by
  have hnonneg : ∀ j, 0 ≤ t.squareDistFromOrig origin key j := fun j => mul_self_nonneg _
  have h0 := hnonneg 0
  have h1 := hnonneg 1
  have h2 := hnonneg 2
  unfold squareDist
  fin_cases i <;> simp only [Fin.zero_eta, Fin.mk_one, Fin.reduceFinMk] <;> linarith

/-- The next border is crossed, in a direction in which the ray moves. -/
theorem OnRay.step_ne_zero (h : t.OnRay r o u s) (ht : t.Usable) (hr : t.Straight r)
    (hnear : ∀ i, |t.keyToCoord (s.currentKey i) - r.origin i| < t.parameters.maxRange) :
    r.step (nextDim s.tMax) ≠ 0 := by
  intro hzero
  obtain ⟨i, hi⟩ := hr.exists_half_le
  have hres := ht.resolution_pos
  have hpos : 0 < |r.direction i| := by linarith
  have hstep : r.step i ≠ 0 := fun h0 => by
    rw [(hr.step_zero i).1 h0, abs_zero] at hpos
    exact lt_irrefl _ hpos
  -- its border comes before the one at `max()`
  have hle := nextDim_le s.tMax i
  rw [h.tMax_eq, if_pos hzero, h.tMax_eq i, if_neg hstep] at hle
  have hmax := ht.lt_doubleMax
  have hborder : |t.keyToCoord (s.currentKey i) + r.step i * t.parameters.octreeResolution * 0.5 - r.origin i| ≤
      t.parameters.maxRange + t.parameters.octreeResolution / 2 := by
    have habs : |(r.step i : K) * t.parameters.octreeResolution * 0.5| = t.parameters.octreeResolution / 2 := by
      rcases lt_trichotomy (r.direction i) 0 with hd | hd | hd
      · rw [(hr.step_neg i).2 hd]
        rw [show ((-1 : Int) : K) * t.parameters.octreeResolution * 0.5 = -(t.parameters.octreeResolution / 2) by
          push_cast; ring, abs_neg, abs_of_pos (by linarith)]
      · exact absurd ((hr.step_zero i).2 hd) hstep
      · rw [(hr.step_pos i).2 hd]
        rw [show ((1 : Int) : K) * t.parameters.octreeResolution * 0.5 = t.parameters.octreeResolution / 2 by
          push_cast; ring, abs_of_pos (by linarith)]
    calc _ = |(t.keyToCoord (s.currentKey i) - r.origin i) + r.step i * t.parameters.octreeResolution * 0.5| := by
          congr 1
          ring
      _ ≤ |t.keyToCoord (s.currentKey i) - r.origin i| + |r.step i * t.parameters.octreeResolution * 0.5| :=
          abs_add_le _ _
      _ ≤ _ := by
          rw [habs]
          linarith [hnear i]
  have hdiv := (abs_le.1 ((abs_div _ _).le.trans (div_le_div_of_nonneg_right hborder hpos.le))).2
  have hquot : (t.parameters.maxRange + t.parameters.octreeResolution / 2) / |r.direction i| ≤
      2 * t.parameters.maxRange + t.parameters.octreeResolution := by
    rw [div_le_iff₀ hpos]
    nlinarith [ht.maxRange_nonneg]
  linarith

omit [IsStrictOrderedRing K] in
theorem Straight.direction_ne_zero (hr : t.Straight r) {i : Fin 3} (hi : r.step i ≠ 0) : r.direction i ≠ 0 :=
  fun h0 => hi ((hr.step_zero i).2 h0)

theorem OnRay.pointAt_tMax (h : t.OnRay r o u s) (hr : t.Straight r) {i : Fin 3} (hi : r.step i ≠ 0) :
    pointAt r (s.tMax i) i = t.keyToCoord (s.currentKey i) + r.step i * t.parameters.octreeResolution * 0.5 := by
  unfold pointAt
  rw [h.tMax_eq, if_neg hi, div_mul_cancel₀ _ (hr.direction_ne_zero hi)]
  ring

/-- Until the next border the ray is in the voxel. -/
theorem OnRay.crossing (h : t.OnRay r o u s) (hr : t.Straight r) (hstep : r.step (nextDim s.tMax) ≠ 0) :
    u ≤ s.tMax (nextDim s.tMax) ∧
      ∀ v, u ≤ v → v ≤ s.tMax (nextDim s.tMax) → t.InVoxel s.currentKey (pointAt r v) := by
  have hin := fun i => abs_le.1 (h.inVoxel i)
  constructor
  · have hborder := h.pointAt_tMax hr hstep
    have hu := hin (nextDim s.tMax)
    unfold pointAt at hborder hu
    rcases lt_trichotomy (r.direction (nextDim s.tMax)) 0 with hd | hd | hd
    · rw [(hr.step_neg _).2 hd] at hborder
      push_cast at hborder
      nlinarith
    · exact absurd ((hr.step_zero _).2 hd) hstep
    · rw [(hr.step_pos _).2 hd] at hborder
      push_cast at hborder
      nlinarith
  · intro v hv hv' i
    have hu := hin i
    have hle := hv'.trans (nextDim_le s.tMax i)
    unfold pointAt at hu ⊢
    rw [abs_le]
    rcases lt_trichotomy (r.direction i) 0 with hd | hd | hd
    · have hi : r.step i ≠ 0 := by
        rw [(hr.step_neg i).2 hd]
        decide
      have hborder := h.pointAt_tMax hr hi
      rw [(hr.step_neg i).2 hd] at hborder
      unfold pointAt at hborder
      push_cast at hborder
      constructor <;> nlinarith
    · rw [hd] at hu ⊢
      simpa using hu
    · have hi : r.step i ≠ 0 := by
        rw [(hr.step_pos i).2 hd]
        decide
      have hborder := h.pointAt_tMax hr hi
      rw [(hr.step_pos i).2 hd] at hborder
      unfold pointAt at hborder
      push_cast at hborder
      constructor <;> nlinarith

theorem toNat_ofInt (x : Int) : ((UInt16.ofInt x).toNat : Int) = x % 65536 := by
  unfold UInt16.ofInt
  rw [UInt16.toNat_ofNat']
  omega

omit [IsStrictOrderedRing K] in
theorem Straight.step_cases (hr : t.Straight r) {i : Fin 3} (hi : r.step i ≠ 0) : r.step i = 1 ∨ r.step i = -1 := by
  rcases lt_trichotomy (r.direction i) 0 with hd | hd | hd
  · exact .inr ((hr.step_neg i).2 hd)
  · exact absurd ((hr.step_zero i).2 hd) hi
  · exact .inl ((hr.step_pos i).2 hd)

omit [IsStrictOrderedRing K] in
/-- The next voxel is one further, or its key has wrapped around. -/
theorem step_key (hr : t.Straight r) {i : Fin 3} (hi : r.step i ≠ 0) (k : UInt16) :
    ((UInt16.ofInt (k.toNat + r.step i)).toNat : Int) = k.toNat + r.step i ∨
      |((UInt16.ofInt (k.toNat + r.step i)).toNat : Int) - k.toNat| = 65535 ∧
        (k.toNat = 0 ∧ r.step i = -1 ∨ k.toNat = 65535 ∧ r.step i = 1) := by
  rw [toNat_ofInt]
  have := k.toNat_lt
  rcases hr.step_cases hi with h1 | h1
  · rw [h1]
    rcases Nat.lt_or_ge k.toNat 65535 with hk | hk
    · left
      omega
    · refine .inr ⟨?_, .inr ⟨by omega, rfl⟩⟩
      rw [abs_of_nonpos] <;> omega
  · rw [h1]
    rcases Nat.eq_zero_or_pos k.toNat with hk | hk
    · refine .inr ⟨?_, .inl ⟨hk, rfl⟩⟩
      rw [abs_of_nonneg] <;> omega
    · left
      omega

theorem keyToCoord_sub (ht : t.Usable) (k k' : UInt16) :
    t.keyToCoord k' - t.keyToCoord k = (((k'.toNat : Int) - k.toNat : Int) : K) * t.parameters.octreeResolution := by
  rw [ht.keyToCoord_eq, ht.keyToCoord_eq]
  push_cast
  ring

omit [IsStrictOrderedRing K] in
theorem keyDist_update (hr : t.Straight r) {i : Fin 3} (hi : r.step i ≠ 0) {o k : OcTreeKey} {k' : UInt16}
    (haway : 0 ≤ r.step i * (((k i).toNat : Int) - (o i).toNat)) (hk : (k'.toNat : Int) = (k i).toNat + r.step i) :
    keyDist o (Function.update k i k') = keyDist o k + 1 := by
  have hdim : |((Function.update k i k' i).toNat : Int) - (o i).toNat| = |((k i).toNat : Int) - (o i).toNat| + 1 := by
    rw [Function.update_self, hk]
    rcases hr.step_cases hi with h1 | h1
    · rw [h1] at haway ⊢
      rw [abs_of_nonneg (by omega), abs_of_nonneg (by omega)]
      ring
    · rw [h1] at haway ⊢
      rw [abs_of_nonpos (by omega), abs_of_nonpos (by omega)]
      ring
  have hother : ∀ j, j ≠ i → |((Function.update k i k' j).toNat : Int) - (o j).toNat| =
      |((k j).toNat : Int) - (o j).toNat| := fun j hj => by rw [Function.update_of_ne hj]
  unfold keyDist
  rw [Fintype.sum_eq_add_sum_compl i, Fintype.sum_eq_add_sum_compl i, hdim,
    Finset.sum_congr rfl fun j hj => hother j (by simpa using hj)]
  ring

/-- The key of the next voxel in the direction in which the border is crossed. -/
def nextCoord (r : Ray K) (s : RayState K) : UInt16 :=
  UInt16.ofInt ((s.currentKey (nextDim s.tMax)).toNat + r.step (nextDim s.tMax))

omit [IsStrictOrderedRing K] in
theorem currentKey_advance (t : RobustOcTree K) (r : Ray K) (s : RayState K) :
    (t.advance r s).currentKey = Function.update s.currentKey (nextDim s.tMax) (nextCoord r s) := rfl

omit [IsStrictOrderedRing K] in
theorem tMax_advance (t : RobustOcTree K) (r : Ray K) (s : RayState K) : (t.advance r s).tMax =
    Function.update s.tMax (nextDim s.tMax) (s.tMax (nextDim s.tMax) + r.tDelta (nextDim s.tMax)) := rfl

omit [IsStrictOrderedRing K] in
theorem OnRay.squareDist_advance (h : t.OnRay r o u s) :
    (t.advance r s).squareDistFromOrigVec = t.squareDistFromOrig r.origin (t.advance r s).currentKey := by
  funext i
  show Function.update s.squareDistFromOrigVec (nextDim s.tMax) _ i = _
  rcases eq_or_ne i (nextDim s.tMax) with rfl | hne
  · rw [Function.update_self]
    rfl
  · rw [Function.update_of_ne hne, congrFun h.squareDist_eq i]
    unfold squareDistFromOrig
    rw [currentKey_advance, Function.update_of_ne hne]

/-- A key that has wrapped around is too far away. -/
theorem squareDist_wrap (ht : t.Usable) (hr : t.Straight r)
    (hnear : ∀ i, |t.keyToCoord (s.currentKey i) - r.origin i| < t.parameters.maxRange)
    (hwrap : |((nextCoord r s).toNat : Int) - (s.currentKey (nextDim s.tMax)).toNat| = 65535) :
    r.maxrangeScaled ≤ t.squareDist r.origin (t.advance r s).currentKey := by
  have hres := ht.resolution_pos
  have hnear' := hnear (nextDim s.tMax)
  have hkey : (t.advance r s).currentKey (nextDim s.tMax) = nextCoord r s := by
    rw [currentKey_advance, Function.update_self]
  generalize nextDim s.tMax = d at hnear' hwrap hkey
  have hfar : t.parameters.maxRange ≤ |t.keyToCoord (nextCoord r s) - r.origin d| := by
    have habs : |t.keyToCoord (nextCoord r s) - t.keyToCoord (s.currentKey d)| =
        65535 * t.parameters.octreeResolution := by
      rw [keyToCoord_sub ht, abs_mul, abs_of_pos hres, ← Int.cast_abs, hwrap]
      norm_num
    have htriangle := abs_sub_abs_le_abs_sub (t.keyToCoord (nextCoord r s) - t.keyToCoord (s.currentKey d))
      (r.origin d - t.keyToCoord (s.currentKey d))
    rw [sub_sub_sub_cancel_right, habs, abs_sub_comm (r.origin d)] at htriangle
    have := ht.maxRange_le
    linarith
  refine le_trans ?_ (t.squareDistFromOrig_le r.origin _ d)
  rw [hr.maxrange_eq, div_mul_div_comm, div_le_iff₀ (mul_pos hres hres), centre_sub_origin ht, hkey,
    ← abs_mul_abs_self (t.keyToCoord _ - _)]
  exact mul_self_le_mul_self ht.maxRange_nonneg hfar

/-- In the voxel behind the border, everything is known again. -/
theorem OnRay.go (h : t.OnRay r o u s) (ht : t.Usable) (hr : t.Straight r) (hstep : r.step (nextDim s.tMax) ≠ 0)
    (hkey : ((nextCoord r s).toNat : Int) = (s.currentKey (nextDim s.tMax)).toNat + r.step (nextDim s.tMax)) :
    t.OnRay r o (s.tMax (nextDim s.tMax)) (t.advance r s) := by
  have hcross := (h.crossing hr hstep).2 _ (h.crossing hr hstep).1 le_rfl
  have hborder := h.pointAt_tMax hr hstep
  have hres := ht.resolution_pos
  have hcoord : t.keyToCoord (nextCoord r s) = t.keyToCoord (s.currentKey (nextDim s.tMax)) +
      r.step (nextDim s.tMax) * t.parameters.octreeResolution := by
    have hsub := keyToCoord_sub ht (s.currentKey (nextDim s.tMax)) (nextCoord r s)
    rw [hkey, add_sub_cancel_left] at hsub
    linarith
  refine ⟨h.squareDist_advance, fun i => ?_, fun i => ?_, fun i => ?_⟩
  · rw [currentKey_advance, tMax_advance]
    rcases eq_or_ne i (nextDim s.tMax) with rfl | hne
    · rw [Function.update_self, Function.update_self, if_neg hstep, hcoord, h.tMax_eq, if_neg hstep,
        hr.tDelta_eq _ hstep]
      have hdir := hr.direction_ne_zero hstep
      rcases hr.step_cases hstep with h1 | h1
      · rw [abs_of_pos ((hr.step_pos _).1 h1), h1]
        field_simp
        push_cast
        ring
      · rw [abs_of_neg ((hr.step_neg _).1 h1), h1]
        field_simp
        push_cast
        ring
    · rw [Function.update_of_ne hne, Function.update_of_ne hne, h.tMax_eq]
  · rw [currentKey_advance]
    rcases eq_or_ne i (nextDim s.tMax) with rfl | hne
    · rw [Function.update_self, hcoord, hborder, abs_le]
      rcases hr.step_cases hstep with h1 | h1
      all_goals
        rw [h1]
        push_cast
        constructor <;> linarith
    · rw [Function.update_of_ne hne]
      exact hcross i
  · rw [currentKey_advance]
    rcases eq_or_ne i (nextDim s.tMax) with rfl | hne
    · rw [Function.update_self, hkey]
      have haway := h.away (nextDim s.tMax)
      rcases hr.step_cases hstep with h1 | h1
      all_goals
        rw [h1] at haway ⊢
        omega
    · rw [Function.update_of_ne hne]
      exact h.away i

omit [IsStrictOrderedRing K] in
theorem enters_advance (hborder : t.OnBorder r u s.currentKey (nextDim s.tMax))
    (hkey : ((nextCoord r s).toNat : Int) = (s.currentKey (nextDim s.tMax)).toNat + r.step (nextDim s.tMax)) :
    t.Enters r u s.currentKey (t.advance r s).currentKey := by
  rw [currentKey_advance]
  exact ⟨_, hborder, by rw [Function.update_self, hkey], fun j hj => Function.update_of_ne hj ..⟩

/-- Behind the border there is the next voxel, or the tree ends and the key wraps around. -/
theorem OnRay.advance (h : t.OnRay r o u s) (ht : t.Usable) (hr : t.Straight r)
    (hnear : ∀ i, |t.keyToCoord (s.currentKey i) - r.origin i| < t.parameters.maxRange) :
    (t.OnRay r o (s.tMax (nextDim s.tMax)) (t.advance r s) ∧
      t.Enters r (s.tMax (nextDim s.tMax)) s.currentKey (t.advance r s).currentKey ∧
      keyDist o (t.advance r s).currentKey = keyDist o s.currentKey + 1) ∨
    (t.Leaves r (s.tMax (nextDim s.tMax)) s.currentKey ∧
      r.maxrangeScaled ≤ t.squareDist r.origin (t.advance r s).currentKey) := by
  have hstep := h.step_ne_zero ht hr hnear
  have hborder : t.OnBorder r (s.tMax (nextDim s.tMax)) s.currentKey (nextDim s.tMax) :=
    ⟨hstep, h.pointAt_tMax hr hstep⟩
  rcases step_key hr hstep (s.currentKey (nextDim s.tMax)) with hkey | ⟨hwrap, hend⟩
  · exact .inl ⟨h.go ht hr hstep hkey, enters_advance hborder hkey, keyDist_update hr hstep (h.away _) hkey⟩
  · exact .inr ⟨⟨_, hborder, hend⟩, squareDist_wrap ht hr hnear hwrap⟩

/-! ### The loop -/

variable [FloorRing K]

/-- The place in its entry of the table of a voxel. -/
def tableIndex (t : RobustOcTree K) (r : Ray K) (key : OcTreeKey) : Int :=
  toInt ((t.sqrt (t.squareDist r.origin key) * t.parameters.octreeResolution - r.probApproxMaxDist) /
    (t.parameters.depthErrorResolution * r.lengthToDepth) + 0.5)

/-- What the table has for a voxel in range: free before the entry, a full hit after it. -/
def cellAt (t : RobustOcTree K) (r : Ray K) (key : OcTreeKey) : Cell K :=
  if t.squareDist r.origin key < r.probApproxMaxDistScaled then .free 0
  else
    match r.entry with
    | none => .invalid
    | some entry => tableCell entry (t.tableIndex r key)

/-- Why there is no cell after that of the voxel, which the ray leaves at `w`. -/
inductive Ends (t : RobustOcTree K) (r : Ray K) (w : K) (key : OcTreeKey) : Prop
  | hit (hcell : t.cellAt r key = .last)
  | tree (hleaves : t.Leaves r w key)
  | heights (next : OcTreeKey) (henters : t.Enters r w key next) (hout : ¬ t.InHeights next)
  | range (next : OcTreeKey) (henters : t.Enters r w key next) (hfar : r.maxrangeScaled ≤ t.squareDist r.origin next)

/-- The cells of a ray that is at `u` in the voxel `key`, up to the one that it leaves at `w`. -/
structure Traces (t : RobustOcTree K) (r : Ray K) (room : Nat) (u : K) (key : OcTreeKey) (ray : List (OccPrevKey K))
    (w : K) : Prop where
  along : t.Along r u ray w
  inRange : ∀ e ∈ ray, t.squareDist r.origin e.key < r.maxrangeScaled
  inHeights : ∀ e ∈ ray.tail, t.InHeights e.key
  free : ∀ e ∈ ray.dropLast, t.cellAt r e.key = .free e.occupancy
  last : ∀ e ∈ ray.getLast?, t.cellAt r e.key = .free e.occupancy ∨ t.cellAt r e.key = .last ∧ e.occupancy = 1
  ends : ∀ e ∈ ray.getLast?, ray.length = room ∨ t.Ends r w e.key
  empty : ray = [] → room = 0 ∨ r.maxrangeScaled ≤ t.squareDist r.origin key

omit [IsStrictOrderedRing K] in
theorem Traces.singleton {e : OccPrevKey K} {v : K} (room : Nat) (hcell : t.cellAt r e.key = .free e.occupancy ∨
    t.cellAt r e.key = .last ∧ e.occupancy = 1) (hrange : t.squareDist r.origin e.key < r.maxrangeScaled) (huv : u ≤ v)
    (hin : ∀ x, u ≤ x → x ≤ v → t.InVoxel e.key (pointAt r x)) (hends : t.Ends r v e.key) :
    t.Traces r room u e.key [e] v := by
  refine ⟨⟨v, huv, hin, by simp, rfl⟩, by simpa using hrange, by simp, by simp, ?_, ?_, by simp⟩
  · simpa using hcell
  · simpa using .inr hends

omit [IsStrictOrderedRing K] in
/-- One cell more at the front. -/
theorem Traces.cons {e : OccPrevKey K} {v w : K} {room : Nat} {next : OcTreeKey} {ray : List (OccPrevKey K)}
    (h : t.Traces r room v next ray w) (hhead : ∀ e' ∈ ray.head?, e'.key = next)
    (hcell : t.cellAt r e.key = .free e.occupancy) (hrange : t.squareDist r.origin e.key < r.maxrangeScaled)
    (huv : u ≤ v) (hin : ∀ x, u ≤ x → x ≤ v → t.InVoxel e.key (pointAt r x)) (henters : t.Enters r v e.key next)
    (hheights : t.InHeights next) : t.Traces r (room + 1) u e.key (e :: ray) w := by
  have halong : t.Along r u (e :: ray) w :=
    ⟨v, huv, hin, fun e' he' => by rw [hhead e' he']; exact henters, h.along⟩
  refine ⟨halong, List.forall_mem_cons.2 ⟨hrange, h.inRange⟩, ?_, ?_, ?_, ?_, by simp⟩
  all_goals cases ray with
  | nil => ?_
  | cons e' ray => ?_
  · simp
  · exact List.forall_mem_cons.2 ⟨by rw [hhead e' (by simp)]; exact hheights, h.inHeights⟩
  · simp
  · exact List.forall_mem_cons.2 ⟨hcell, h.free⟩
  · simpa using .inl hcell
  · exact fun e'' he'' => h.last e'' he''
  · obtain rfl : v = w := h.along
    have hempty := h.empty rfl
    simp only [List.getLast?_singleton, Option.mem_def, Option.some.injEq, forall_eq', List.length_singleton]
    exact hempty.imp (fun hroom => by omega) (fun hfar => .range next henters hfar)
  · exact fun e'' he'' => (h.ends e'' he'').imp_left fun hlen => congrArg (· + 1) hlen

variable {origin point forwardVec : Fin 3 → K}

end RobustOcTree

/-! ### With real numbers -/

/-- The keys of octomap, for voxels of the size `resolution`. -/
noncomputable def realKey (resolution : ℝ) (point : Fin 3 → ℝ) : Option OcTreeKey :=
  if ∀ i, 0 ≤ ⌊point i / resolution⌋ + treeMaxVal ∧ ⌊point i / resolution⌋ + treeMaxVal < 65536 then
    some fun i => UInt16.ofInt (⌊point i / resolution⌋ + treeMaxVal)
  else none

noncomputable def realTree (parameters : RobustOcTreeParameters ℝ) (lookupEntry : ℝ → Option (List ℝ)) :
    RobustOcTree ℝ where
  parameters
  coordToKeyChecked := realKey parameters.octreeResolution
  keyToCoord k := ((k.toNat : ℝ) - (treeMaxVal : ℝ) + 0.5) * parameters.octreeResolution
  lookupEntry
  sqrt := Real.sqrt
  doubleMax := 1e308

section
variable {x : ℝ}

end

end A17.Occmapping
