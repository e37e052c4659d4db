import A17.Lib.Dict
import A17.Occmapping.RayKeys
import Mathlib.Algebra.BigOperators.Fin
import Mathlib.Data.Fintype.Basic

/-!
# The tree of the voxels

`updateNode` of `robustoctree.cpp` changes the occupancy of a voxel. `updateNodeRecurs` goes down to its node, through
nodes it expands or creates, and on the way back it prunes what has become the same, unless the evaluation is lazy.
What the nodes hold for the voxels (`find`) changes at the one voxel only, and `changedKeys` gets the voxels that are
new or on the other side of the threshold.

`Octomap` has what octomap does with a node: the index of a child, creating it, expanding, pruning and the search. It
counts in `tree_size` the children that it creates and deletes, and `robustoctree.cpp` counts them once more, so
`tree_size` is not the number of the nodes but `counted`.
-/

namespace A17.Occmapping
open Dict GridLoops

/-- A pointer to a node. -/
inductive Node (K : Type) where
  | null
  | mk (value : K) (children : Fin 8 → Node K)

namespace Node
variable {K : Type}

def isNull : Node K → Bool
  | null => true
  | mk _ _ => false

/-- A node without children. -/
def leaf (value : K) : Node K := mk value fun _ => null

def child (i : Fin 8) : Node K → Node K
  | null => null
  | mk _ children => children i

def setChild : Node K → Fin 8 → Node K → Node K
  | null, _, _ => null
  | mk value children, i, c => mk value (Function.update children i c)

def setOccupancy (p : K) : Node K → Node K
  | null => null
  | mk _ children => mk p children

def nodeHasChildren : Node K → Bool
  | null => false
  | mk _ children => decide (∃ i, (children i).isNull = false)

variable [Zero K] [LinearOrder K]

def getOccupancy : Node K → K
  | null => 0
  | mk value _ => value

def getMaxChildOccupancy : Node K → K
  | null => 0
  | mk _ children => (List.finRange 8).foldl
      (fun maxOccupancy i => if (children i).isNull then maxOccupancy
        else if (children i).getOccupancy > maxOccupancy then (children i).getOccupancy else maxOccupancy) 0

end Node

open Node

/-- What octomap does. What creates and deletes children also gives how much it adds to `tree_size`; `pruneNode` gives
the pruned node if it has pruned it. -/
structure Octomap (K : Type) where
  treeDepth : Nat
  computeChildIdx : OcTreeKey → Nat → Fin 8
  createNodeChild : Node K → Fin 8 → Node K × Int
  expandNode : Node K → Node K × Int
  pruneNode : Node K → Option (Node K × Int)
  search : Node K → OcTreeKey → Option K

/-- The tree, and what changes with it. -/
structure VoxelTree (K : Type) where
  root : Node K
  treeSize : Int
  useChangeDetection : Bool
  changedKeys : List (OcTreeKey × Bool)

namespace RobustOcTree
variable {K : Type} [Field K] [LinearOrder K]

/-- `kDefaultValue`. -/
def defaultValue : K := 0.5

def calcOccupiedProbability (probOccupied probVisible probMeasIfOccupied probMeasIfNotOccupied
    probMeasNotVisible : K) : K :=
  (probMeasIfOccupied * probVisible * probOccupied + probMeasNotVisible * (1 - probVisible) * probOccupied) /
    (probMeasIfOccupied * probVisible * probOccupied + probMeasIfNotOccupied * probVisible * (1 - probOccupied) +
      probMeasNotVisible * (1 - probVisible))

/-- The new occupancy. -/
def updateNodeOccupancy (t : RobustOcTree K) (probVisible occupancy probOccupied : K) : K :=
  let p := t.parameters
  if occupancy = 0 then
    let probMiss := calcOccupiedProbability probOccupied probVisible (1 - p.probHitIfOccupied)
      (1 - p.probHitIfNotOccupied) (1 - p.probHitIfNotVisible)
    if probMiss > p.clampingThresholdMin then probMiss else p.clampingThresholdMin
  else
    let probHit := calcOccupiedProbability probOccupied probVisible p.probHitIfOccupied p.probHitIfNotOccupied
      p.probHitIfNotVisible
    if occupancy = 1 then
      if probHit < p.clampingThresholdMax then probHit else p.clampingThresholdMax
    else
      -- here the source has the hit probability of voxels that are not visible for the miss too
      let probMiss := calcOccupiedProbability probOccupied probVisible (1 - p.probHitIfOccupied)
        (1 - p.probHitIfNotOccupied) p.probHitIfNotVisible
      let value := occupancy * probHit + (1 - occupancy) * probMiss
      if value < p.clampingThresholdMin then p.clampingThresholdMin
      else if value > p.clampingThresholdMax then p.clampingThresholdMax else value

def isNodeOccupied (t : RobustOcTree K) (occupancy : K) : Bool :=
  decide (occupancy > t.parameters.occupancyProbThreshold)

/-- `changed_keys` after a voxel was updated. -/
def trackChange (nodeJustCreated occBefore occAfter : Bool) (key : OcTreeKey) (changedKeys : List (OcTreeKey × Bool)) :
    List (OcTreeKey × Bool) :=
  if nodeJustCreated then
    -- an insert leaves an entry that is there
    if (changedKeys.lookup key).isSome then changedKeys else set changedKeys key true
  else if occBefore ≠ occAfter then
    match changedKeys.lookup key with
    | none => set changedKeys key false
    | some created => if created then changedKeys else del changedKeys key
  else changedKeys

/-- The node with the child at `pos`, what is added to `tree_size`, and whether the child has just been created. -/
def ensureChild (m : Octomap K) (nodeJustCreated : Bool) (node : Node K) (pos : Fin 8) : Node K × Int × Bool :=
  if (node.child pos).isNull then
    if !node.nodeHasChildren && !nodeJustCreated then
      let expanded := m.expandNode node
      (expanded.1, expanded.2 + 8, false)
    else
      let created := m.createNodeChild node pos
      (created.1, created.2 + 1, true)
  else (node, 0, false)

/-- On the way back the node is pruned or gets its occupancy from its children. -/
def settleNode (m : Octomap K) (node : Node K) : Node K × Int :=
  match m.pruneNode node with
  | some pruned => (pruned.1, pruned.2 - 8)
  | none => (node.setOccupancy node.getMaxChildOccupancy, 0)

/-- `levels` is how far the node is above the voxels. -/
def updateNodeRecurs (t : RobustOcTree K) (m : Octomap K) (key : OcTreeKey) (visibility occupancy : K)
    (useChangeDetection lazyEval : Bool) :
    Nat → Bool → Node K → Int → List (OcTreeKey × Bool) → Node K × Int × List (OcTreeKey × Bool)
  | 0, nodeJustCreated, node, treeSize, changedKeys =>
    let value := t.updateNodeOccupancy visibility occupancy node.getOccupancy
    (node.setOccupancy value, treeSize,
      if useChangeDetection then
        trackChange nodeJustCreated (t.isNodeOccupied node.getOccupancy) (t.isNodeOccupied value) key changedKeys
      else changedKeys)
  | levels + 1, nodeJustCreated, node, treeSize, changedKeys =>
    let pos := m.computeChildIdx key levels
    let ensured := ensureChild m nodeJustCreated node pos
    let updated := t.updateNodeRecurs m key visibility occupancy useChangeDetection lazyEval levels ensured.2.2
      (ensured.1.child pos) (treeSize + ensured.2.1) changedKeys
    let node := ensured.1.setChild pos updated.1
    if lazyEval then (node, updated.2)
    else
      let settled := settleNode m node
      (settled.1, updated.2.1 + settled.2, updated.2.2)

def updateNode (t : RobustOcTree K) (m : Octomap K) (s : VoxelTree K) (key : OcTreeKey) (visibility occupancy : K)
    (lazyEval : Bool) : VoxelTree K :=
  -- the search gives nothing when there is no root
  let found := m.search s.root key
  if occupancy = 0 ∧ ∃ leaf ∈ found, leaf ≤ t.parameters.clampingThresholdMin then s
  else
    let createdRoot := s.root.isNull
    let root := if createdRoot then leaf defaultValue else s.root
    let treeSize := if createdRoot then s.treeSize + 1 else s.treeSize
    let updated := t.updateNodeRecurs m key visibility occupancy s.useChangeDetection lazyEval m.treeDepth createdRoot
      root treeSize s.changedKeys
    { s with root := updated.1, treeSize := updated.2.1, changedKeys := updated.2.2 }

end RobustOcTree

/-! ### What the nodes hold -/

namespace Node
variable {K : Type} {m : Octomap K}

/-- The occupancy of a voxel: of its node, or of a pruned one above it. -/
def find (computeChildIdx : OcTreeKey → Nat → Fin 8) : Nat → Node K → OcTreeKey → Option K
  | _, null, _ => none
  | 0, mk value _, _ => some value
  | levels + 1, mk value children, key =>
    if (mk value children).nodeHasChildren then
      find computeChildIdx levels (children (computeChildIdx key levels)) key
    else some value

/-- How many nodes there are. -/
def count : Node K → Int
  | null => 0
  | mk _ children => 1 + ∑ i, (children i).count

/-- What `tree_size` is: the root is counted once, and each of the other nodes twice. -/
def counted (n : Node K) : Int := if n.isNull then 0 else 2 * n.count - 1

/-- The voxels have no children. -/
def Fits : Nat → Node K → Prop
  | _, null => True
  | 0, mk _ children => ∀ i, children i = null
  | levels + 1, mk _ children => ∀ i, (children i).Fits levels

theorem isNull_iff {n : Node K} : n.isNull = true ↔ n = null := by
  cases n <;> simp [isNull]

theorem nodeHasChildren_mk {value : K} {children : Fin 8 → Node K} :
    (mk value children).nodeHasChildren = true ↔ ∃ i, children i ≠ null := by
  simp only [nodeHasChildren, decide_eq_true_eq]
  refine exists_congr fun i => ?_
  rw [← Bool.not_eq_true, isNull_iff]

theorem nodeHasChildren_leaf (value : K) : (leaf value).nodeHasChildren = false := by
  simp [leaf, nodeHasChildren, isNull]

theorem exists_mk {n : Node K} (h : n ≠ null) : ∃ value children, n = mk value children := by
  cases n with
  | null => exact absurd rfl h
  | mk value children => exact ⟨value, children, rfl⟩

theorem fits_null (levels : Nat) : (null : Node K).Fits levels := by
  cases levels <;> trivial

theorem fits_leaf (levels : Nat) (value : K) : (leaf value).Fits levels := by
  cases levels with
  | zero => exact fun i => rfl
  | succ levels => exact fun i => fits_null levels

theorem find_leaf (levels : Nat) (value : K) (key : OcTreeKey) :
    (leaf value).find m.computeChildIdx levels key = some value := by
  cases levels with
  | zero => rfl
  | succ levels =>
    show (if (leaf value).nodeHasChildren then _ else _) = _
    rw [nodeHasChildren_leaf]
    rfl

theorem find_null (levels : Nat) (key : OcTreeKey) : (null : Node K).find m.computeChildIdx levels key = none := by
  cases levels <;> rfl

theorem count_leaf (value : K) : (leaf value).count = 1 := by
  show 1 + ∑ _ : Fin 8, (0 : Int) = 1
  simp

theorem count_setOccupancy (p : K) (n : Node K) : (n.setOccupancy p).count = n.count := by
  cases n <;> rfl

theorem counted_of_ne {n : Node K} (h : n ≠ null) : n.counted = 2 * n.count - 1 :=
  if_neg fun hnull => h (isNull_iff.1 hnull)

/-- With the child that the key goes through. -/
theorem find_setChild (levels : Nat) {value : K} {children : Fin 8 → Node K} {i : Fin 8} {c : Node K} (hc : c ≠ null)
    (key : OcTreeKey) : ((mk value children).setChild i c).find m.computeChildIdx (levels + 1) key =
      if m.computeChildIdx key levels = i then c.find m.computeChildIdx levels key
      else (children (m.computeChildIdx key levels)).find m.computeChildIdx levels key := by
  have hhas : (mk value (Function.update children i c)).nodeHasChildren = true :=
    nodeHasChildren_mk.2 ⟨i, by rwa [Function.update_self]⟩
  show (if (mk value (Function.update children i c)).nodeHasChildren then _ else _) = _
  rw [if_pos hhas]
  split
  · next h => rw [h, Function.update_self]
  · next h => rw [Function.update_of_ne h]

theorem count_setChild (value : K) (children : Fin 8 → Node K) (i : Fin 8) (c : Node K) :
    ((mk value children).setChild i c).count = (mk value children).count + c.count - (children i).count := by
  show 1 + ∑ j, (Function.update children i c j).count = 1 + ∑ j, (children j).count + c.count - (children i).count
  rw [Fintype.sum_eq_add_sum_compl i, Fintype.sum_eq_add_sum_compl i (fun j => (children j).count),
    Function.update_self, Finset.sum_congr rfl fun j hj => by rw [Function.update_of_ne (by simpa using hj)]]
  ring

theorem fits_setChild {levels : Nat} {value : K} {children : Fin 8 → Node K} (i : Fin 8) {c : Node K}
    (h : (mk value children).Fits (levels + 1)) (hc : c.Fits levels) :
    ((mk value children).setChild i c).Fits (levels + 1) := by
  intro j
  rcases eq_or_ne j i with rfl | hne
  · rw [Function.update_self]
    exact hc
  · rw [Function.update_of_ne hne]
    exact h j

theorem find_mk_of_child {levels : Nat} {value : K} {children : Fin 8 → Node K} (h : ∃ i, children i ≠ null)
    (k : OcTreeKey) : (Node.mk value children).find m.computeChildIdx (levels + 1) k =
      (children (m.computeChildIdx k levels)).find m.computeChildIdx levels k :=
  if_pos (nodeHasChildren_mk.2 h)

theorem eq_leaf {value : K} {children : Fin 8 → Node K} (h : ¬ ∃ i, children i ≠ null) :
    Node.mk value children = leaf value := by
  push Not at h
  rw [leaf, funext h]

end Node

/-- What is documented of octomap. -/
structure Octomap.Lawful {K : Type} [Field K] [LinearOrder K] (m : Octomap K) : Prop where
  /-- The keys of two voxels part at some level. -/
  computeChildIdx_inj : ∀ k k',
    (∀ levels < m.treeDepth, m.computeChildIdx k levels = m.computeChildIdx k' levels) → k = k'
  /-- A new node is there, and has been counted. -/
  createNodeChild_eq : ∀ (value : K) children pos, children pos = null →
    m.createNodeChild (.mk value children) pos =
      ((Node.mk value children).setChild pos (leaf RobustOcTree.defaultValue), 1)
  /-- All children are created, with the value of the node, and counted. -/
  expandNode_eq : ∀ value : K, m.expandNode (leaf value) = (.mk value fun _ => leaf value, 8)
  /-- A node is pruned when all its children exist, have no children of their own and have the same value. They are no
  longer counted. -/
  pruneNode_eq : ∀ (value : K) children pruned, m.pruneNode (.mk value children) = some pruned →
    ∃ v, (∀ i, children i = leaf v) ∧ pruned = (leaf v, -8)
  search_eq : ∀ root key, m.search root key = root.find m.computeChildIdx m.treeDepth key

/-! ### One update -/

section
variable {K : Type} [Field K] [LinearOrder K] {t : RobustOcTree K} {m : Octomap K} {key : OcTreeKey}

/-- What a voxel has had before, where the nodes that have just been created do not count. -/
def before (m : Octomap K) (levels : Nat) (nodeJustCreated : Bool) (n : Node K) (key : OcTreeKey) : Option K :=
  if nodeJustCreated then none else n.find m.computeChildIdx levels key

/-- The node has a child to go down to, and no voxel has become another. -/
structure Ensured (m : Octomap K) (levels : Nat) (nodeJustCreated : Bool) (n : Node K) (pos : Fin 8) (value : K)
    (children : Fin 8 → Node K) (grown : Int) (created : Bool) : Prop where
  ne_null : children pos ≠ null
  fits : (Node.mk value children).Fits (levels + 1)
  created_eq : created = true → children pos = leaf RobustOcTree.defaultValue
  grown_eq : grown = 2 * ((Node.mk value children).count - n.count)
  inside : ∀ k, m.computeChildIdx k levels = pos →
    before m levels created (children pos) k = before m (levels + 1) nodeJustCreated n k
  outside : ∀ k, m.computeChildIdx k levels ≠ pos →
    (children (m.computeChildIdx k levels)).find m.computeChildIdx levels k = before m (levels + 1) nodeJustCreated n k

theorem ensureChild_spec (hm : m.Lawful) {levels : Nat} {nodeJustCreated : Bool} {n : Node K} (hne : n ≠ null)
    (hfits : n.Fits (levels + 1)) (hcreated : nodeJustCreated = true → n = leaf RobustOcTree.defaultValue)
    (pos : Fin 8) : ∃ value children grown created,
      RobustOcTree.ensureChild m nodeJustCreated n pos = (Node.mk value children, grown, created) ∧
        Ensured m levels nodeJustCreated n pos value children grown created := by
  obtain ⟨value, children, rfl⟩ := exists_mk hne
  unfold RobustOcTree.ensureChild
  show ∃ _ _ _ _, (if (children pos).isNull then _ else _) = _ ∧ _
  by_cases hchild : children pos = null
  · rw [if_pos (isNull_iff.2 hchild)]
    by_cases hexpand : (!(Node.mk value children).nodeHasChildren && !nodeJustCreated) = true
    · -- the node has been pruned
      rw [if_pos hexpand]
      simp only [Bool.and_eq_true, Bool.not_eq_true'] at hexpand
      obtain ⟨hhas, rfl⟩ := hexpand
      have hleaf : Node.mk value children = leaf value := eq_leaf fun h => by
        rw [nodeHasChildren_mk.2 h] at hhas
        cases hhas
      rw [hleaf, hm.expandNode_eq]
      have hfind : ∀ k, before m (levels + 1) false (leaf value) k = some value := fun k => find_leaf _ _ k
      refine ⟨value, _, 16, false, rfl, fun h => (by cases h), fun i => fits_leaf _ _, fun h => (by cases h), ?_,
        fun k _ => ?_, fun k _ => ?_⟩
      · show 16 = 2 * (1 + ∑ _ : Fin 8, (leaf value).count - (leaf value).count)
        simp [count_leaf]
      · rw [hfind]
        exact find_leaf _ _ k
      · rw [hfind]
        exact find_leaf _ _ k
    · rw [if_neg hexpand, hm.createNodeChild_eq value children pos hchild]
      simp only [Bool.and_eq_true, Bool.not_eq_true', not_and_or, Bool.not_eq_false] at hexpand
      -- nothing has been at the new child
      have hothers : ∀ k, before m (levels + 1) nodeJustCreated (Node.mk value children) k =
          (children (m.computeChildIdx k levels)).find m.computeChildIdx levels k := by
        intro k
        by_cases hnew : nodeJustCreated = true
        · have hleaf := hcreated hnew
          rw [leaf, Node.mk.injEq] at hleaf
          rw [before, if_pos hnew, hleaf.2, find_null]
        · rw [before, if_neg hnew]
          exact find_mk_of_child (nodeHasChildren_mk.1 (hexpand.resolve_right hnew)) k
      refine ⟨value, Function.update children pos (leaf RobustOcTree.defaultValue), 2, true, rfl, ?_, ?_, fun _ => ?_,
        ?_, fun k hk => ?_, fun k hk => ?_⟩
      · rw [Function.update_self]
        exact fun h => by cases h
      · exact fits_setChild pos hfits (fits_leaf _ _)
      · rw [Function.update_self]
      · have hcount := count_setChild value children pos (leaf RobustOcTree.defaultValue)
        rw [hchild, count_leaf] at hcount
        have hnull : (null : Node K).count = 0 := rfl
        have hset : (Node.mk value (Function.update children pos (leaf RobustOcTree.defaultValue))).count =
          (Node.mk value children).count + 1 - (null : Node K).count := hcount
        omega
      · rw [hothers, hk, hchild, find_null]
        rfl
      · rw [hothers, Function.update_of_ne hk]
  · rw [if_neg fun h => hchild (isNull_iff.1 h)]
    have hold : nodeJustCreated = false := by
      rw [← Bool.not_eq_true]
      intro hnew
      have hleaf := hcreated hnew
      rw [leaf, Node.mk.injEq] at hleaf
      exact hchild (by rw [hleaf.2])
    subst hold
    have hfind : ∀ k, before m (levels + 1) false (Node.mk value children) k =
        (children (m.computeChildIdx k levels)).find m.computeChildIdx levels k := find_mk_of_child ⟨pos, hchild⟩
    refine ⟨value, children, 0, false, rfl, hchild, hfits, fun h => (by cases h), by omega, fun k hk => ?_,
      fun k _ => (hfind k).symm⟩
    rw [hfind, hk]
    rfl

theorem settleNode_spec (hm : m.Lawful) {levels : Nat} {value : K} {children : Fin 8 → Node K}
    (h : ∃ i, children i ≠ null) (hfits : (Node.mk value children).Fits (levels + 1)) :
    (RobustOcTree.settleNode m (Node.mk value children)).1 ≠ null ∧
      (RobustOcTree.settleNode m (Node.mk value children)).1.Fits (levels + 1) ∧
      (∀ k, (RobustOcTree.settleNode m (Node.mk value children)).1.find m.computeChildIdx (levels + 1) k =
        (Node.mk value children).find m.computeChildIdx (levels + 1) k) ∧
      (RobustOcTree.settleNode m (Node.mk value children)).2 =
        2 * ((RobustOcTree.settleNode m (Node.mk value children)).1.count - (Node.mk value children).count) := by
  unfold RobustOcTree.settleNode
  cases hprune : m.pruneNode (Node.mk value children) with
  | some pruned =>
    obtain ⟨v, hchildren, rfl⟩ := hm.pruneNode_eq value children pruned hprune
    refine ⟨fun h => (by cases h), fits_leaf _ _, fun k => ?_, ?_⟩
    · rw [find_mk_of_child h, hchildren, find_leaf, find_leaf]
    · show -8 - 8 = 2 * ((leaf v).count - (1 + ∑ i, (children i).count))
      simp only [hchildren, count_leaf]
      simp
  | none =>
    refine ⟨fun h => (by cases h), hfits, fun k => ?_, by rw [count_setOccupancy, sub_self, mul_zero]⟩
    exact (find_mk_of_child h k).trans (find_mk_of_child h k).symm

variable {visibility occupancy : K} {useChangeDetection lazyEval : Bool}

/-- The value of a voxel that has had `before`. -/
def RobustOcTree.valueAfter (t : RobustOcTree K) (visibility occupancy : K) (before : Option K) : K :=
  t.updateNodeOccupancy visibility occupancy (before.getD RobustOcTree.defaultValue)

/-- What is tracked of a voxel that has had `before` and has `value` now. -/
def RobustOcTree.trackVoxel (t : RobustOcTree K) (key : OcTreeKey) (before : Option K) (value : K)
    (changedKeys : List (OcTreeKey × Bool)) : List (OcTreeKey × Bool) :=
  RobustOcTree.trackChange before.isNone (t.isNodeOccupied (before.getD RobustOcTree.defaultValue))
    (t.isNodeOccupied value) key changedKeys

/-- One voxel has the new value, and the others what they had. -/
structure Updates (t : RobustOcTree K) (m : Octomap K) (key : OcTreeKey) (visibility occupancy : K)
    (useChangeDetection : Bool) (levels : Nat) (nodeJustCreated : Bool) (n : Node K) (treeSize : Int)
    (changedKeys : List (OcTreeKey × Bool)) (r : Node K × Int × List (OcTreeKey × Bool)) : Prop where
  ne_null : r.1 ≠ null
  fits : r.1.Fits levels
  size_eq : r.2.1 = treeSize + 2 * (r.1.count - n.count)
  find_eq : ∀ k, r.1.find m.computeChildIdx levels k = if ∀ l < levels, m.computeChildIdx k l = m.computeChildIdx key l
    then some (t.valueAfter visibility occupancy (before m levels nodeJustCreated n key))
    else before m levels nodeJustCreated n k
  changed_eq : r.2.2 = if useChangeDetection then t.trackVoxel key (before m levels nodeJustCreated n key)
    (t.valueAfter visibility occupancy (before m levels nodeJustCreated n key)) changedKeys else changedKeys

theorem updateNodeRecurs_spec (hm : m.Lawful) {levels : Nat} {nodeJustCreated : Bool} {n : Node K} (hne : n ≠ null)
    (hfits : n.Fits levels) (hcreated : nodeJustCreated = true → n = leaf RobustOcTree.defaultValue) (treeSize : Int)
    (changedKeys : List (OcTreeKey × Bool)) :
    Updates t m key visibility occupancy useChangeDetection levels nodeJustCreated n treeSize changedKeys
      (t.updateNodeRecurs m key visibility occupancy useChangeDetection lazyEval levels nodeJustCreated n treeSize
        changedKeys) := by
  induction levels generalizing nodeJustCreated n treeSize with
  | zero =>
    obtain ⟨value, children, rfl⟩ := exists_mk hne
    have hbefore :
        (before m 0 nodeJustCreated (Node.mk value children) key).getD RobustOcTree.defaultValue = value := by
      cases nodeJustCreated with
      | false => rfl
      | true =>
        have hleaf := hcreated rfl
        rw [leaf, Node.mk.injEq] at hleaf
        exact hleaf.1.symm
    have hisNone : (before m 0 nodeJustCreated (Node.mk value children) key).isNone = nodeJustCreated := by
      cases nodeJustCreated <;> rfl
    refine ⟨fun h => (by cases h), hfits, ?_, fun k => ?_, ?_⟩
    · show treeSize = treeSize + 2 * ((1 + ∑ i, (children i).count) - (1 + ∑ i, (children i).count))
      rw [sub_self, mul_zero, add_zero]
    · rw [if_pos fun l hl => absurd hl (Nat.not_lt_zero l), RobustOcTree.valueAfter, hbefore]
      rfl
    · rw [RobustOcTree.trackVoxel, RobustOcTree.valueAfter, hbefore, hisNone]
      rfl
  | succ levels ih =>
    obtain ⟨value, children, grown, created, hensure, hensured⟩ :=
      ensureChild_spec hm hne hfits hcreated (m.computeChildIdx key levels)
    have hchild := ih hensured.ne_null (hensured.fits _) hensured.created_eq (treeSize + grown)
    unfold RobustOcTree.updateNodeRecurs
    dsimp only
    rw [hensure]
    dsimp only [Node.child]
    generalize t.updateNodeRecurs m key visibility occupancy useChangeDetection lazyEval levels created
      (children (m.computeChildIdx key levels)) (treeSize + grown) changedKeys = r at hchild ⊢
    have hbefore := hensured.inside key rfl
    have hhas : ∃ i, Function.update children (m.computeChildIdx key levels) r.1 i ≠ null :=
      ⟨_, by rw [Function.update_self]; exact hchild.ne_null⟩
    have hfits' := fits_setChild (m.computeChildIdx key levels) hensured.fits hchild.fits
    have hcount := count_setChild value children (m.computeChildIdx key levels) r.1
    have hgrown := hensured.grown_eq
    have hsize := hchild.size_eq
    have hfind : ∀ k, ((Node.mk value children).setChild (m.computeChildIdx key levels) r.1).find
        m.computeChildIdx (levels + 1) k = if ∀ l < levels + 1, m.computeChildIdx k l = m.computeChildIdx key l
        then some (t.valueAfter visibility occupancy (before m (levels + 1) nodeJustCreated n key))
        else before m (levels + 1) nodeJustCreated n k := by
      intro k
      rw [find_setChild levels hchild.ne_null]
      by_cases hk : m.computeChildIdx k levels = m.computeChildIdx key levels
      · have hall : (∀ l < levels + 1, m.computeChildIdx k l = m.computeChildIdx key l) ↔
            ∀ l < levels, m.computeChildIdx k l = m.computeChildIdx key l := by
          rw [Nat.forall_lt_succ_right]
          exact and_iff_left hk
        rw [if_pos hk, hchild.find_eq, hbefore, hensured.inside k hk]
        simp only [hall]
      · rw [if_neg hk, if_neg fun h => hk (h levels (Nat.lt_succ_self _)), hensured.outside k hk]
    cases lazyEval with
    | true =>
      refine ⟨fun h => (by cases h), hfits', ?_, hfind, ?_⟩
      · show r.2.1 = _
        simp only [if_true]
        omega
      · rw [← hbefore]
        exact hchild.changed_eq
    | false =>
      obtain ⟨hne', hfits'', hfind', hcount'⟩ := settleNode_spec hm hhas hfits'
      refine ⟨hne', hfits'', ?_, fun k => (hfind' k).trans (hfind k), ?_⟩
      · show r.2.1 + (RobustOcTree.settleNode m (Node.mk value _)).2 = _
        rw [hcount']
        have hset : (Node.mk value (Function.update children (m.computeChildIdx key levels) r.1)).count =
          (Node.mk value children).count + r.1.count - (children (m.computeChildIdx key levels)).count := hcount
        show _ = treeSize + 2 * ((RobustOcTree.settleNode m (Node.mk value _)).1.count - n.count)
        omega
      · rw [← hbefore]
        exact hchild.changed_eq

/-! ### The tree -/

/-- The voxels are at the depth of the tree, and the nodes are counted. -/
structure VoxelTree.Sound (m : Octomap K) (s : VoxelTree K) : Prop where
  fits : s.root.Fits m.treeDepth
  treeSize_eq : s.treeSize = s.root.counted

/-- What the tree holds. -/
def VoxelTree.voxels (m : Octomap K) (s : VoxelTree K) (key : OcTreeKey) : Option K :=
  s.root.find m.computeChildIdx m.treeDepth key

/-- A free voxel that has the least occupancy already. -/
def RobustOcTree.Spared (t : RobustOcTree K) (occupancy : K) (before : Option K) : Prop :=
  occupancy = 0 ∧ ∃ p ∈ before, p ≤ t.parameters.clampingThresholdMin

instance (occupancy : K) (before : Option K) : Decidable (t.Spared occupancy before) :=
  inferInstanceAs (Decidable (occupancy = 0 ∧ ∃ p ∈ before, p ≤ t.parameters.clampingThresholdMin))

theorem updateNode_of_spared (hm : m.Lawful) {s : VoxelTree K} (h : t.Spared occupancy (s.voxels m key)) :
    t.updateNode m s key visibility occupancy lazyEval = s := by
  unfold RobustOcTree.updateNode
  rw [hm.search_eq]
  exact if_pos h

/-- The value of one voxel changes, and it is tracked. -/
structure Updated (t : RobustOcTree K) (m : Octomap K) (s : VoxelTree K) (key : OcTreeKey) (visibility occupancy : K)
    (s' : VoxelTree K) : Prop where
  sound : s'.Sound m
  voxels_eq : s'.voxels m =
    Function.update (s.voxels m) key (some (t.valueAfter visibility occupancy (s.voxels m key)))
  useChangeDetection_eq : s'.useChangeDetection = s.useChangeDetection
  changedKeys_eq : s'.changedKeys = if s.useChangeDetection then t.trackVoxel key (s.voxels m key)
    (t.valueAfter visibility occupancy (s.voxels m key)) s.changedKeys else s.changedKeys

theorem updateNode_spec (hm : m.Lawful) {s : VoxelTree K} (hs : s.Sound m)
    (h : ¬ t.Spared occupancy (s.voxels m key)) :
    Updated t m s key visibility occupancy (t.updateNode m s key visibility occupancy lazyEval) := by
  obtain ⟨root, hroot⟩ : ∃ root, (if s.root.isNull then leaf RobustOcTree.defaultValue else s.root) = root := ⟨_, rfl⟩
  obtain ⟨treeSize, hsize⟩ : ∃ n, (if s.root.isNull then s.treeSize + 1 else s.treeSize) = n := ⟨_, rfl⟩
  obtain ⟨r, hr⟩ : ∃ r, t.updateNodeRecurs m key visibility occupancy s.useChangeDetection lazyEval m.treeDepth
    s.root.isNull root treeSize s.changedKeys = r := ⟨_, rfl⟩
  have hupdate : t.updateNode m s key visibility occupancy lazyEval =
      { s with root := r.1, treeSize := r.2.1, changedKeys := r.2.2 } := by
    unfold RobustOcTree.updateNode
    rw [hm.search_eq, ← hr, ← hroot, ← hsize]
    exact if_neg h
  have hne : root ≠ null := by
    rw [← hroot]
    split
    · exact fun h => by cases h
    · next hnull => exact fun h => hnull (isNull_iff.2 h)
  have hfits : root.Fits m.treeDepth := by
    rw [← hroot]
    split
    · exact fits_leaf _ _
    · exact hs.fits
  have hcreated : s.root.isNull = true → root = leaf RobustOcTree.defaultValue := fun hnull => by
    rw [← hroot, if_pos hnull]
  have hspec : Updates t m key visibility occupancy s.useChangeDetection m.treeDepth s.root.isNull root treeSize
      s.changedKeys r := by
    rw [← hr]
    exact updateNodeRecurs_spec hm hne hfits hcreated treeSize s.changedKeys
  have hbefore : ∀ k, before m m.treeDepth s.root.isNull root k = s.voxels m k := by
    intro k
    unfold before VoxelTree.voxels
    rw [← hroot]
    split
    · next hnull => rw [isNull_iff.1 hnull, find_null]
    · rfl
  have hcount : treeSize = 2 * root.count - 1 := by
    rw [← hroot, ← hsize, hs.treeSize_eq, counted]
    split
    · rw [count_leaf]
      norm_num
    · rfl
  rw [hupdate]
  refine ⟨⟨hspec.fits, ?_⟩, ?_, rfl, ?_⟩
  · refine hspec.size_eq.trans ?_
    rw [hcount, counted_of_ne hspec.ne_null]
    ring
  · funext k
    refine (hspec.find_eq k).trans ?_
    rw [hbefore, hbefore, Function.update_apply]
    refine if_congr ⟨fun hk => hm.computeChildIdx_inj _ _ hk, fun hk _ _ => by rw [hk]⟩ rfl rfl
  · refine hspec.changed_eq.trans ?_
    rw [hbefore]

end
end A17.Occmapping
