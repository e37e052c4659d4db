import A17.Occmapping.RayPath
import A17.Occmapping.VoxelTree
import Mathlib.Algebra.Order.Field.Basic
import Mathlib.Tactic.Linarith
import Mathlib.Tactic.Positivity

/-!
# Runs of updates

Over a run of updates the tree is a map from voxels to occupancies (`tree_run`), lazy or not, and whatever was expanded
and pruned. With usual parameters the occupancies stay between the clamping thresholds, so the early abort of
`updateNode` only spares updates that would change no voxel (`tree_run_clamped`). `changed_keys` tells how the voxels
differ from what they were when it was reset (`changedKeys_run`).
-/

namespace A17.Occmapping
open Dict GridLoops Node

/-- A call of `updateNode`. -/
structure VoxelUpdate (K : Type) where
  key : OcTreeKey
  visibility : K
  occupancy : K
  lazyEval : Bool

section
variable {K : Type} [Field K] [LinearOrder K]

/-- Before the first update. -/
def VoxelTree.empty (useChangeDetection : Bool) : VoxelTree K where
  root := null
  treeSize := 0
  useChangeDetection
  changedKeys := []

def RobustOcTree.runUpdates (t : RobustOcTree K) (m : Octomap K) (s : VoxelTree K) (updates : List (VoxelUpdate K)) :
    VoxelTree K :=
  updates.foldl (fun s u => t.updateNode m s u.key u.visibility u.occupancy u.lazyEval) s

/-- An update of the map. -/
def RobustOcTree.updateMap (t : RobustOcTree K) (voxels : OcTreeKey → Option K) (u : VoxelUpdate K) :
    OcTreeKey → Option K :=
  Function.update voxels u.key (some (t.valueAfter u.visibility u.occupancy (voxels u.key)))

/-- The update that `updateNode` makes. -/
def RobustOcTree.updateSparing (t : RobustOcTree K) (voxels : OcTreeKey → Option K) (u : VoxelUpdate K) :
    OcTreeKey → Option K :=
  if t.Spared u.occupancy (voxels u.key) then voxels else t.updateMap voxels u

variable {t : RobustOcTree K} {m : Octomap K} {s : VoxelTree K}

omit [Field K] [LinearOrder K] in
theorem sound_empty (useChangeDetection : Bool) : (VoxelTree.empty useChangeDetection : VoxelTree K).Sound m :=
  ⟨fits_null _, rfl⟩

omit [Field K] [LinearOrder K] in
theorem voxels_empty (useChangeDetection : Bool) :
    (VoxelTree.empty useChangeDetection : VoxelTree K).voxels m = fun _ => none :=
  funext fun k => find_null _ k

theorem step_spec (hm : m.Lawful) (hs : s.Sound m) (u : VoxelUpdate K) :
    (t.updateNode m s u.key u.visibility u.occupancy u.lazyEval).Sound m ∧
      (t.updateNode m s u.key u.visibility u.occupancy u.lazyEval).voxels m = t.updateSparing (s.voxels m) u := by
  unfold RobustOcTree.updateSparing
  by_cases h : t.Spared u.occupancy (s.voxels m u.key)
  · rw [updateNode_of_spared hm h, if_pos h]
    exact ⟨hs, rfl⟩
  · have hspec : Updated t m s u.key u.visibility u.occupancy
        (t.updateNode m s u.key u.visibility u.occupancy u.lazyEval) := updateNode_spec hm hs h
    rw [if_neg h]
    exact ⟨hspec.sound, hspec.voxels_eq⟩

theorem runUpdates_spec (hm : m.Lawful) (hs : s.Sound m) (updates : List (VoxelUpdate K)) :
    (t.runUpdates m s updates).Sound m ∧
      (t.runUpdates m s updates).voxels m = updates.foldl t.updateSparing (s.voxels m) := by
  induction updates generalizing s with
  | nil => exact ⟨hs, rfl⟩
  | cons u updates ih =>
    obtain ⟨hsound, hvoxels⟩ := step_spec (t := t) hm hs u
    obtain ⟨hsound', hvoxels'⟩ := ih hsound
    refine ⟨hsound', hvoxels'.trans ?_⟩
    rw [hvoxels, List.foldl_cons]

/-! ### The occupancies -/

variable [IsStrictOrderedRing K]

/-- The parameters of a sensor that is neither blind nor always right, and thresholds around the default. -/
structure RobustOcTreeParameters.Usual (p : RobustOcTreeParameters K) : Prop where
  hit_pos : 0 < p.probHitIfNotOccupied
  hit_le : p.probHitIfNotOccupied ≤ p.probHitIfOccupied
  hit_lt : p.probHitIfOccupied < 1
  notVisible_pos : 0 < p.probHitIfNotVisible
  notVisible_lt : p.probHitIfNotVisible < 1
  min_pos : 0 < p.clampingThresholdMin
  min_le : p.clampingThresholdMin ≤ RobustOcTree.defaultValue
  le_max : RobustOcTree.defaultValue ≤ p.clampingThresholdMax
  max_lt : p.clampingThresholdMax < 1

namespace RobustOcTree

/-- Not less after a hit, and not more after a miss. -/
theorem calcOccupiedProbability_le {p v a b c : K} (hp : 0 < p) (hp' : p < 1) (hv : 0 ≤ v) (hv' : v ≤ 1) (ha : 0 < a)
    (hab : a ≤ b) (hc : 0 < c) : calcOccupiedProbability p v a b c ≤ p := by
  have hpos : 0 < a * v * p + b * v * (1 - p) + c * (1 - v) := by
    rcases hv.eq_or_lt with rfl | hpos
    · simpa using hc
    · have h1 : 0 < a * v * p := by positivity
      have h2 : 0 ≤ b * v * (1 - p) := mul_nonneg (mul_nonneg (ha.le.trans hab) hv) (by linarith)
      have h3 : 0 ≤ c * (1 - v) := mul_nonneg hc.le (by linarith)
      linarith
  unfold calcOccupiedProbability
  rw [div_le_iff₀ hpos]
  have h : 0 ≤ (b - a) * v * (1 - p) * p :=
    mul_nonneg (mul_nonneg (mul_nonneg (by linarith) hv) (by linarith)) hp.le
  linarith

theorem le_calcOccupiedProbability {p v a b c : K} (hp : 0 < p) (hp' : p < 1) (hv : 0 ≤ v) (hv' : v ≤ 1) (hb : 0 < b)
    (hab : b ≤ a) (hc : 0 < c) : p ≤ calcOccupiedProbability p v a b c := by
  have hpos : 0 < a * v * p + b * v * (1 - p) + c * (1 - v) := by
    rcases hv.eq_or_lt with rfl | hpos
    · simpa using hc
    · have h1 : 0 < a * v * p := mul_pos (mul_pos (hb.trans_le hab) hpos) hp
      have h2 : 0 ≤ b * v * (1 - p) := mul_nonneg (mul_nonneg hb.le hv) (by linarith)
      have h3 : 0 ≤ c * (1 - v) := mul_nonneg hc.le (by linarith)
      linarith
  unfold calcOccupiedProbability
  rw [le_div_iff₀ hpos]
  have h : 0 ≤ (a - b) * v * (1 - p) * p :=
    mul_nonneg (mul_nonneg (mul_nonneg (by linarith) hv) (by linarith)) hp.le
  linarith

theorem valueAfter_clamped (hp : t.parameters.Usual) {visibility : K} (hv : 0 ≤ visibility) (hv' : visibility ≤ 1)
    (occupancy : K) {before : Option K} (hbefore : ∀ v ∈ before,
      t.parameters.clampingThresholdMin ≤ v ∧ v ≤ t.parameters.clampingThresholdMax) :
    t.parameters.clampingThresholdMin ≤ t.valueAfter visibility occupancy before ∧
      t.valueAfter visibility occupancy before ≤ t.parameters.clampingThresholdMax := by
  obtain ⟨hlow, hhigh⟩ : t.parameters.clampingThresholdMin ≤ before.getD defaultValue ∧
      before.getD defaultValue ≤ t.parameters.clampingThresholdMax := by
    cases before with
    | none => exact ⟨hp.min_le, hp.le_max⟩
    | some v => exact hbefore v rfl
  have hpos : 0 < before.getD defaultValue := hp.min_pos.trans_le hlow
  have hlt : before.getD defaultValue < 1 := hhigh.trans_lt hp.max_lt
  have hmiss := calcOccupiedProbability_le hpos hlt hv hv' (sub_pos.2 hp.hit_lt) (sub_le_sub_left hp.hit_le 1)
    (sub_pos.2 hp.notVisible_lt)
  have hhit := le_calcOccupiedProbability hpos hlt hv hv' hp.hit_pos hp.hit_le hp.notVisible_pos
  have horder := hlow.trans hhigh
  unfold valueAfter updateNodeOccupancy
  dsimp only
  split_ifs with h0 h1 h2 h3 h4 h5
  · exact ⟨h1.le, hmiss.trans hhigh⟩
  · exact ⟨le_rfl, horder⟩
  · exact ⟨hlow.trans hhit, h3.le⟩
  · exact ⟨horder, le_rfl⟩
  · exact ⟨le_rfl, horder⟩
  · exact ⟨horder, le_rfl⟩
  · exact ⟨not_lt.1 h4, not_lt.1 h5⟩

/-- The update of a voxel that is spared would change nothing. -/
theorem valueAfter_of_spared (hp : t.parameters.Usual) {visibility : K} (hv : 0 ≤ visibility) (hv' : visibility ≤ 1)
    {v : K} (hlow : t.parameters.clampingThresholdMin ≤ v) (hle : v ≤ t.parameters.clampingThresholdMin) :
    t.valueAfter visibility 0 (some v) = v := by
  obtain rfl := le_antisymm hle hlow
  have hlt : t.parameters.clampingThresholdMin < 1 := (hp.min_le.trans hp.le_max).trans_lt hp.max_lt
  have hmiss := calcOccupiedProbability_le hp.min_pos hlt hv hv' (sub_pos.2 hp.hit_lt) (sub_le_sub_left hp.hit_le 1)
    (sub_pos.2 hp.notVisible_lt)
  unfold valueAfter updateNodeOccupancy
  dsimp only [Option.getD_some]
  rw [if_pos rfl, if_neg (not_lt.2 hmiss)]

/-- The occupancies are between the clamping thresholds. -/
def Clamped (t : RobustOcTree K) (voxels : OcTreeKey → Option K) : Prop :=
  ∀ k, ∀ v ∈ voxels k, t.parameters.clampingThresholdMin ≤ v ∧ v ≤ t.parameters.clampingThresholdMax

theorem Clamped.updateMap (hp : t.parameters.Usual) {voxels : OcTreeKey → Option K} (h : t.Clamped voxels)
    {u : VoxelUpdate K} (hv : 0 ≤ u.visibility ∧ u.visibility ≤ 1) : t.Clamped (t.updateMap voxels u) := by
  intro k v hk
  unfold RobustOcTree.updateMap at hk
  rcases eq_or_ne k u.key with rfl | hne
  · rw [Function.update_self] at hk
    obtain rfl := Option.some.inj hk
    exact valueAfter_clamped hp hv.1 hv.2 _ (h u.key)
  · rw [Function.update_of_ne hne] at hk
    exact h k v hk

theorem Clamped.updateSparing (hp : t.parameters.Usual) {voxels : OcTreeKey → Option K} (h : t.Clamped voxels)
    {u : VoxelUpdate K} (hv : 0 ≤ u.visibility ∧ u.visibility ≤ 1) :
    t.updateSparing voxels u = t.updateMap voxels u := by
  unfold RobustOcTree.updateSparing
  split_ifs with hspared
  · obtain ⟨hzero, v, hk, hle⟩ := hspared
    have hsome : voxels u.key = some v := hk
    unfold RobustOcTree.updateMap
    rw [hzero, hsome, valueAfter_of_spared hp hv.1 hv.2 (h u.key v hk).1 hle, ← hsome, Function.update_eq_self]
  · rfl

theorem foldl_updateSparing (hp : t.parameters.Usual) {updates : List (VoxelUpdate K)}
    (hv : ∀ u ∈ updates, 0 ≤ u.visibility ∧ u.visibility ≤ 1) {voxels : OcTreeKey → Option K} (h : t.Clamped voxels) :
    updates.foldl t.updateSparing voxels = updates.foldl t.updateMap voxels ∧
      t.Clamped (updates.foldl t.updateMap voxels) := by
  induction updates generalizing voxels with
  | nil => exact ⟨rfl, h⟩
  | cons u updates ih =>
    have hu := hv u (by simp)
    rw [List.foldl_cons, List.foldl_cons, h.updateSparing hp hu]
    exact ih (fun u' hu' => hv u' (List.mem_cons_of_mem _ hu')) (h.updateMap hp hu)

end RobustOcTree

omit [IsStrictOrderedRing K] in
/-- After any updates the tree is the map that they make, and its size is what its nodes are counted, whichever updates
were lazy. -/
theorem tree_run (hm : m.Lawful) (useChangeDetection : Bool) (updates : List (VoxelUpdate K)) :
    (t.runUpdates m (.empty useChangeDetection) updates).voxels m = updates.foldl t.updateSparing (fun _ => none) ∧
      (t.runUpdates m (.empty useChangeDetection) updates).treeSize =
        (t.runUpdates m (.empty useChangeDetection) updates).root.counted := by
  obtain ⟨hsound, hvoxels⟩ := runUpdates_spec (t := t) hm (sound_empty useChangeDetection) updates
  rw [voxels_empty] at hvoxels
  exact ⟨hvoxels, hsound.treeSize_eq⟩

/-- With usual parameters the occupancies are clamped after any updates, and are those of the updates without the early
abort. -/
theorem tree_run_clamped (hm : m.Lawful) (hp : t.parameters.Usual) (useChangeDetection : Bool)
    {updates : List (VoxelUpdate K)} (hv : ∀ u ∈ updates, 0 ≤ u.visibility ∧ u.visibility ≤ 1) :
    (t.runUpdates m (.empty useChangeDetection) updates).voxels m = updates.foldl t.updateMap (fun _ => none) ∧
      ∀ k v, (t.runUpdates m (.empty useChangeDetection) updates).voxels m k = some v →
        t.parameters.clampingThresholdMin ≤ v ∧ v ≤ t.parameters.clampingThresholdMax := by
  obtain ⟨-, hvoxels⟩ := runUpdates_spec (t := t) hm (sound_empty useChangeDetection) updates
  have hempty : t.Clamped fun _ => none := fun k v hk => by cases hk
  obtain ⟨hplain, hclamped⟩ := RobustOcTree.foldl_updateSparing hp hv hempty
  rw [voxels_empty, hplain] at hvoxels
  rw [hvoxels]
  exact ⟨rfl, fun k v hk => hclamped k v hk⟩

/-! ### Changed keys -/

omit [IsStrictOrderedRing K]

def VoxelTree.resetChangeDetection (s : VoxelTree K) : VoxelTree K := { s with changedKeys := [] }

/-- How a voxel that has had `old` differs: it is new, or on the other side of the threshold. -/
def RobustOcTree.change (t : RobustOcTree K) (old new : Option K) : Option Bool :=
  match old, new with
  | none, some _ => some true
  | some a, some b => if t.isNodeOccupied a ≠ t.isNodeOccupied b then some false else none
  | _, none => none

theorem lookup_trackVoxel {key : OcTreeKey} {old before : Option K} {changedKeys : List (OcTreeKey × Bool)}
    (hlookup : changedKeys.lookup key = t.change old before) (hkept : old.isSome → before.isSome) (value : K)
    (k : OcTreeKey) : (t.trackVoxel key before value changedKeys).lookup k =
      if key = k then t.change old (some value) else changedKeys.lookup k := by
  have hother : ∀ b, key ≠ k → (set changedKeys key b).lookup k = changedKeys.lookup k := fun b hk => by
    rw [lookup_set, if_neg hk]
  unfold RobustOcTree.trackVoxel RobustOcTree.trackChange
  cases before with
  | none =>
    have hold : old = none := by
      cases old with
      | none => rfl
      | some a => exact absurd (hkept rfl) (by simp)
    subst hold
    have hnone : changedKeys.lookup key = none := hlookup
    rw [Option.isNone_none, if_pos rfl, hnone, if_neg (by simp), lookup_set]
    rfl
  | some b =>
    rw [Option.isNone_some, if_neg (by simp), Option.getD_some]
    cases old with
    | none =>
      have hsome : changedKeys.lookup key = some true := hlookup
      have hsame : changedKeys.lookup k = if key = k then some true else changedKeys.lookup k := by
        split
        · next hk => rw [← hk, hsome]
        · rfl
      split
      · rw [hsome]
        exact hsame
      · exact hsame
    | some a =>
      have hlookup' : changedKeys.lookup key = if t.isNodeOccupied a ≠ t.isNodeOccupied b then some false else none :=
        hlookup
      show _ = if key = k then (if t.isNodeOccupied a ≠ t.isNodeOccupied value then some false else none) else _
      by_cases hbv : t.isNodeOccupied b = t.isNodeOccupied value
      · rw [if_neg (not_not.2 hbv), ← hbv]
        split
        · next hk => rw [← hk, hlookup']
        · rfl
      · rw [if_pos hbv, hlookup']
        by_cases hab : t.isNodeOccupied a = t.isNodeOccupied b
        · rw [if_neg (not_not.2 hab), hab, if_pos hbv]
          exact lookup_set false
        · -- the value is back on the side it was
          have hav : t.isNodeOccupied a = t.isNodeOccupied value :=
            (Bool.eq_not_of_ne hab).trans (Bool.eq_not_of_ne (Ne.symm hbv)).symm
          rw [if_pos hab, if_neg (not_not.2 hav)]
          exact lookup_del

/-- What is tracked since the voxels were `old`. -/
structure Tracks (t : RobustOcTree K) (m : Octomap K) (old : OcTreeKey → Option K) (s : VoxelTree K) : Prop where
  sound : s.Sound m
  detects : s.useChangeDetection = true
  kept : ∀ k, (old k).isSome → (s.voxels m k).isSome
  lookup_eq : ∀ k, s.changedKeys.lookup k = t.change (old k) (s.voxels m k)

theorem Tracks.step (hm : m.Lawful) {old : OcTreeKey → Option K} (h : Tracks t m old s) (u : VoxelUpdate K) :
    Tracks t m old (t.updateNode m s u.key u.visibility u.occupancy u.lazyEval) := by
  by_cases hspared : t.Spared u.occupancy (s.voxels m u.key)
  · rw [updateNode_of_spared hm hspared]
    exact h
  · have hspec : Updated t m s u.key u.visibility u.occupancy
        (t.updateNode m s u.key u.visibility u.occupancy u.lazyEval) := updateNode_spec hm h.sound hspared
    refine ⟨hspec.sound, hspec.useChangeDetection_eq.trans h.detects, fun k hk => ?_, fun k => ?_⟩
    · rw [hspec.voxels_eq, Function.update_apply]
      split
      · rfl
      · exact h.kept k hk
    · rw [hspec.changedKeys_eq, if_pos h.detects, lookup_trackVoxel (h.lookup_eq u.key) (h.kept u.key),
        hspec.voxels_eq, Function.update_apply]
      by_cases hk : u.key = k
      · rw [if_pos hk, if_pos hk.symm, hk]
      · rw [if_neg hk, if_neg (Ne.symm hk)]
        exact h.lookup_eq k

theorem Tracks.run (hm : m.Lawful) {old : OcTreeKey → Option K} (h : Tracks t m old s)
    (updates : List (VoxelUpdate K)) : Tracks t m old (t.runUpdates m s updates) := by
  induction updates generalizing s with
  | nil => exact h
  | cons u updates ih => exact ih (h.step hm u)

omit [Field K] in
theorem tracks_reset (hs : s.Sound m) (hdetects : s.useChangeDetection = true) :
    Tracks t m (s.voxels m) s.resetChangeDetection := by
  refine ⟨⟨hs.fits, hs.treeSize_eq⟩, hdetects, fun k hk => hk, fun k => ?_⟩
  show none = t.change (s.voxels m k) (s.voxels m k)
  unfold RobustOcTree.change
  cases s.voxels m k <;> simp

/-- Whatever was done before, the changed keys are those of the voxels that are new since the reset (`true`), or that
have been there and are now on the other side of the threshold (`false`). -/
theorem changedKeys_run (hm : m.Lawful) (hs : s.Sound m) (hdetects : s.useChangeDetection = true)
    (updates : List (VoxelUpdate K)) (k : OcTreeKey) :
    (t.runUpdates m s.resetChangeDetection updates).changedKeys.lookup k =
      t.change (s.voxels m k) ((t.runUpdates m s.resetChangeDetection updates).voxels m k) :=
  ((tracks_reset hs hdetects).run hm updates).lookup_eq k

end

/-! ### With the default parameters -/

noncomputable def defaultParameters : RobustOcTreeParameters ℝ where
  octreeResolution := 0.2
  minHeight := -1e10
  maxHeight := 1e10
  maxRange := 10.0
  probHitIfOccupied := 0.55
  probHitIfNotOccupied := 0.43
  probHitIfNotVisible := 0.05
  probVisibleIfOccluded := 0.2
  probVisibleIfNotOccluded := 1.0
  depthErrorResolution := 0.05
  occupancyProbThreshold := 0.5
  clampingThresholdMax := 0.971
  clampingThresholdMin := 0.1192
  visibilityClampingMax := 0.7
  visibilityClampingMin := 0.1

theorem usual_default : defaultParameters.Usual := by
  constructor <;> simp only [defaultParameters, RobustOcTree.defaultValue] <;> norm_num

noncomputable def defaultTree : RobustOcTree ℝ := realTree defaultParameters fun _ => some [0, 0.5, 1]

def bit (b : Bool) : Nat := if b then 1 else 0

theorem bits_lt (a b c : Bool) : bit a + 2 * bit b + 4 * bit c < 8 := by
  cases a <;> cases b <;> cases c <;> decide

/-- The bits of the coordinates at a level. -/
def bitsAt (key : OcTreeKey) (level : Nat) : Fin 8 :=
  ⟨bit ((key 0).toNat.testBit level) + 2 * bit ((key 1).toNat.testBit level) + 4 * bit ((key 2).toNat.testBit level),
    bits_lt _ _ _⟩

/-- The children, when they all are leaves with the same value. -/
noncomputable def pruneLeaves : Node ℝ → Option (Node ℝ × Int)
  | null => none
  | .mk _ children =>
    match (List.finRange 8).map children with
    | [] => none
    | first :: rest =>
      if ∀ c ∈ first :: rest, c.isNull = false ∧ c.nodeHasChildren = false ∧ c.getOccupancy = first.getOccupancy then
        some (leaf first.getOccupancy, -8)
      else none

/-- The tree with a bit of each coordinate for a level. -/
noncomputable def bitTree : Octomap ℝ where
  treeDepth := 16
  computeChildIdx := bitsAt
  createNodeChild node pos := (node.setChild pos (leaf RobustOcTree.defaultValue), 1)
  expandNode
    | null => (null, 0)
    | .mk value _ => (.mk value fun _ => leaf value, 8)
  pruneNode := pruneLeaves
  search root key := root.find bitsAt 16 key

theorem bits_inj {a b c a' b' c' : Bool} (h : bit a + 2 * bit b + 4 * bit c = bit a' + 2 * bit b' + 4 * bit c') :
    a = a' ∧ b = b' ∧ c = c' := by
  revert h
  cases a <;> cases b <;> cases c <;> cases a' <;> cases b' <;> cases c' <;> decide

theorem lawful_bitTree : bitTree.Lawful := by
  refine ⟨fun k k' h => ?_, fun _ _ _ _ => rfl, fun value => rfl, fun value children pruned h => ?_,
    fun root key => rfl⟩
  · have hbits : ∀ i, ∀ level, (k i).toNat.testBit level = (k' i).toNat.testBit level := by
      intro i level
      by_cases hlevel : level < 16
      · obtain ⟨h0, h1, h2⟩ := bits_inj (Fin.mk.inj_iff.1 (h level hlevel))
        fin_cases i
        exacts [h0, h1, h2]
      · have hlt : ∀ x : UInt16, x.toNat < 2 ^ level := fun x =>
          x.toNat_lt.trans_le (Nat.pow_le_pow_right (by decide) (not_lt.1 hlevel))
        rw [Nat.testBit_lt_two_pow (hlt _), Nat.testBit_lt_two_pow (hlt _)]
    exact funext fun i => UInt16.toNat_inj.1 (Nat.eq_of_testBit_eq (hbits i))
  · have hprune : pruneLeaves (.mk value children) = some pruned := h
    unfold pruneLeaves at hprune
    dsimp only at hprune
    split at hprune
    · cases hprune
    · next first rest hmap =>
      split_ifs at hprune with hall
      refine ⟨first.getOccupancy, fun i => ?_, (Option.some.inj hprune).symm⟩
      have hmem : children i ∈ first :: rest := hmap ▸ List.mem_map_of_mem (List.mem_finRange i)
      obtain ⟨hnull, hhas, hvalue⟩ := hall _ hmem
      cases hchild : children i with
      | null =>
        rw [hchild] at hnull
        cases hnull
      | mk v grandchildren =>
        rw [hchild] at hhas hvalue
        rw [← hvalue]
        exact eq_leaf fun hsome => by
          rw [nodeHasChildren_mk.2 hsome] at hhas
          cases hhas

/-- A voxel is hit and then free. -/
def hitAndMiss (key : OcTreeKey) : List (VoxelUpdate ℝ) := [⟨key, 1, 1, false⟩, ⟨key, 1, 0, true⟩]

theorem tree_run_hitAndMiss :
    (defaultTree.runUpdates bitTree (.empty true) (hitAndMiss ROOT_KEY)).voxels bitTree =
        (hitAndMiss ROOT_KEY).foldl defaultTree.updateSparing (fun _ => none) ∧
      (defaultTree.runUpdates bitTree (.empty true) (hitAndMiss ROOT_KEY)).treeSize =
        (defaultTree.runUpdates bitTree (.empty true) (hitAndMiss ROOT_KEY)).root.counted :=
  tree_run lawful_bitTree true (hitAndMiss ROOT_KEY)

theorem tree_run_clamped_hitAndMiss :
    (defaultTree.runUpdates bitTree (.empty true) (hitAndMiss ROOT_KEY)).voxels bitTree =
        (hitAndMiss ROOT_KEY).foldl defaultTree.updateMap (fun _ => none) ∧
      ∀ k v, (defaultTree.runUpdates bitTree (.empty true) (hitAndMiss ROOT_KEY)).voxels bitTree k = some v →
        defaultTree.parameters.clampingThresholdMin ≤ v ∧ v ≤ defaultTree.parameters.clampingThresholdMax := by
  refine tree_run_clamped lawful_bitTree usual_default true fun u hu => ?_
  simp only [hitAndMiss, List.mem_cons, List.not_mem_nil, or_false] at hu
  rcases hu with rfl | rfl <;> simp

/-- After two resets, where the voxel was there at the second one. -/
theorem changedKeys_run_hitAndMiss :
    let s := defaultTree.runUpdates bitTree (.resetChangeDetection (.empty true)) (hitAndMiss ROOT_KEY)
    (defaultTree.runUpdates bitTree s.resetChangeDetection (hitAndMiss ROOT_KEY)).changedKeys.lookup ROOT_KEY =
      defaultTree.change (s.voxels bitTree ROOT_KEY)
        ((defaultTree.runUpdates bitTree s.resetChangeDetection (hitAndMiss ROOT_KEY)).voxels bitTree ROOT_KEY) := by
  intro s
  have hstart : Tracks defaultTree bitTree _ (VoxelTree.empty true : VoxelTree ℝ).resetChangeDetection :=
    tracks_reset (sound_empty true) rfl
  have htracks := hstart.run lawful_bitTree (hitAndMiss ROOT_KEY)
  exact changedKeys_run lawful_bitTree htracks.sound htracks.detects (hitAndMiss ROOT_KEY) ROOT_KEY

end A17.Occmapping
