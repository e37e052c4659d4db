import A17.Lib.GridLoops
import A17.Lib.Truncation
import Mathlib.Algebra.BigOperators.Fin
import Mathlib.Algebra.Order.Field.Basic
import Mathlib.Tactic.FieldSimp
import Mathlib.Tactic.LinearCombination
import Mathlib.Tactic.Positivity

/-!
# The cells of a ray

`computeRayKeys` of `robustoctree.cpp` walks from the voxel of the sensor along a ray, each time over the nearest
border. Its cells are the voxels the ray goes through, in order and without a gap (`Along`), and each is one further
from the first than the one before, counted in faces (`Outward`).

`K` stands for the numbers, single and double; `max()` and `sqrt` are the library's, and so are the conversions between
coordinates and keys, which are octomap's.
-/

namespace A17.Occmapping
open GridLoops Truncation

abbrev OcTreeKey := Fin 3 → UInt16

/-- A dummy key that comes before the first of a ray. -/
def ROOT_KEY : OcTreeKey := fun _ => 0xFFFF

structure OccPrevKey (K : Type) where
  occupancy : K
  key : OcTreeKey
  prevKey : OcTreeKey
deriving DecidableEq

structure RobustOcTreeParameters (K : Type) where
  octreeResolution : K
  minHeight : K
  maxHeight : K
  maxRange : K
  probHitIfOccupied : K
  probHitIfNotOccupied : K
  probHitIfNotVisible : K
  probVisibleIfOccluded : K
  probVisibleIfNotOccluded : K
  depthErrorResolution : K
  occupancyProbThreshold : K
  clampingThresholdMax : K
  clampingThresholdMin : K
  visibilityClampingMax : K
  visibilityClampingMin : K

/-- What a tree is constructed with. -/
structure RobustOcTree (K : Type) where
  parameters : RobustOcTreeParameters K
  coordToKeyChecked : (Fin 3 → K) → Option OcTreeKey
  keyToCoord : UInt16 → K
  /-- `lookup->lookupEntry`. -/
  lookupEntry : K → Option (List K)
  sqrt : K → K
  doubleMax : K

/-- What is the same for all cells of a ray. -/
structure Ray (K : Type) where
  origin : Fin 3 → K
  direction : Fin 3 → K
  step : Fin 3 → Int
  tDelta : Fin 3 → K
  maxrangeScaled : K
  lengthToDepth : K
  entry : Option (List K)
  probApproxMaxDist : K
  probApproxMaxDistScaled : K

structure RayState (K : Type) where
  prevKey : OcTreeKey
  currentKey : OcTreeKey
  tMax : Fin 3 → K
  squareDistFromOrigVec : Fin 3 → K

/-- What becomes of a cell: the ray ends before it or with it, or goes on; or the table is read outside of its entry. -/
inductive Cell (K : Type) where
  | tooFar
  | invalid
  | last
  | free (occupancy : K)

/-- `tree_max_val`. -/
def treeMaxVal : Int := 32768

/-- The dimension of the nearest border. -/
def nextDim {K : Type} [LinearOrder K] (tMax : Fin 3 → K) : Fin 3 :=
  if tMax 0 < tMax 1 then
    if tMax 0 < tMax 2 then 0 else 2
  else
    if tMax 1 < tMax 2 then 1 else 2

def stepOf {K : Type} [Zero K] [LinearOrder K] (direction : K) : Int :=
  if direction > 0 then 1 else if direction < 0 then -1 else 0

/-- A cell at the place `index` of an entry of the table. -/
def tableCell {K : Type} (entry : List K) (index : Int) : Cell K :=
  -- one full hit is integrated, and then the ray ends
  if index ≥ entry.length then .last
  else if index < 0 then .invalid
  else
    match entry[index.toNat]? with
    | none => .invalid
    | some occupancyFactor => .free occupancyFactor

/-- `sizeMax() - 1`, which a ray does not get longer than. -/
def rayCapacity : Nat := 99999

namespace RobustOcTree
variable {K : Type} [Field K] [LinearOrder K]

def minZKey (t : RobustOcTree K) : UInt16 :=
  match t.coordToKeyChecked ![0, 0, t.parameters.minHeight] with
  | none => 0
  | some key => key 2

def maxZKey (t : RobustOcTree K) : UInt16 :=
  match t.coordToKeyChecked ![0, 0, t.parameters.maxHeight] with
  | none => 0xFFFF
  | some key => key 2

def norm (t : RobustOcTree K) (v : Fin 3 → K) : K := t.sqrt (v 0 * v 0 + v 1 * v 1 + v 2 * v 2)

/-- The entries of `squareDistFromOrigVec`. -/
def squareDistFromOrig (t : RobustOcTree K) (origin : Fin 3 → K) (key : OcTreeKey) : Fin 3 → K := fun i =>
  let treeMax05 := (treeMaxVal : K) - 0.5
  ((key i).toNat - treeMax05 - origin i / t.parameters.octreeResolution) *
    ((key i).toNat - treeMax05 - origin i / t.parameters.octreeResolution)

/-- The key of the next voxel, which wraps around at the end of the tree. -/
def advance (t : RobustOcTree K) (r : Ray K) (s : RayState K) : RayState K :=
  let dim := nextDim s.tMax
  let currentKey := Function.update s.currentKey dim (UInt16.ofInt ((s.currentKey dim).toNat + r.step dim))
  { prevKey := s.currentKey
    currentKey
    tMax := Function.update s.tMax dim (s.tMax dim + r.tDelta dim)
    squareDistFromOrigVec :=
      Function.update s.squareDistFromOrigVec dim (t.squareDistFromOrig r.origin currentKey dim) }

variable [FloorRing K]

def cell (t : RobustOcTree K) (r : Ray K) (s : RayState K) : Cell K :=
  let squareDistFromOrig := s.squareDistFromOrigVec 0 + s.squareDistFromOrigVec 1 + s.squareDistFromOrigVec 2
  if squareDistFromOrig < r.probApproxMaxDistScaled then .free 0
  else if squareDistFromOrig ≥ r.maxrangeScaled then .tooFar
  else
    match r.entry with
    | none => .invalid
    | some entry => tableCell entry (toInt
        ((t.sqrt squareDistFromOrig * t.parameters.octreeResolution - r.probApproxMaxDist) /
          (t.parameters.depthErrorResolution * r.lengthToDepth) + 0.5))

/-- The loop, with the room that is left for cells. -/
def castRay (t : RobustOcTree K) (r : Ray K) : Nat → RayState K → Option (List (OccPrevKey K))
  | 0, _ => some []
  | room + 1, s =>
    match t.cell r s with
    | .tooFar => some []
    | .invalid => none
    | .last => some [⟨1, s.currentKey, s.prevKey⟩]
    | .free occupancy =>
      let next := t.advance r s
      if next.currentKey 2 < t.minZKey ∨ next.currentKey 2 > t.maxZKey then some [⟨occupancy, s.currentKey, s.prevKey⟩]
      else (t.castRay r room next).map (⟨occupancy, s.currentKey, s.prevKey⟩ :: ·)

/-- The direction of the ray to `point`, and its length. -/
def direction (t : RobustOcTree K) (origin point : Fin 3 → K) : Fin 3 → K := fun i =>
  (point i - origin i) / t.norm fun i => point i - origin i

/-- `lengthToDepth`, with the product of the last coordinates as it is in the source. -/
def lengthToDepth (forwardVec direction : Fin 3 → K) : K :=
  forwardVec 0 * direction 0 + forwardVec 1 * direction 1 + forwardVec 2 * forwardVec 2

def ray (t : RobustOcTree K) (origin point forwardVec : Fin 3 → K) : Ray K :=
  let direction := t.direction origin point
  let resolution := t.parameters.octreeResolution
  let maxrangeScaled := t.parameters.maxRange / resolution * (t.parameters.maxRange / resolution)
  let depth := (t.norm fun i => point i - origin i) / lengthToDepth forwardVec direction
  let entry := t.lookupEntry depth
  let probApproxMaxDist := match entry with
    | none => t.doubleMax
    | some entry => lengthToDepth forwardVec direction *
      (depth - entry.length / 2.0 * t.parameters.depthErrorResolution)
  let step := fun i => stepOf (direction i)
  { origin, direction, step, maxrangeScaled, entry, probApproxMaxDist
    tDelta := fun i => if step i = 0 then t.doubleMax else resolution / |direction i|
    lengthToDepth := lengthToDepth forwardVec direction
    probApproxMaxDistScaled := match entry with
      | none => maxrangeScaled
      | some _ => min (probApproxMaxDist / resolution * (probApproxMaxDist / resolution)) maxrangeScaled }

/-- The way to the border of the voxel in the direction of the ray. -/
def firstState (t : RobustOcTree K) (r : Ray K) (keyOrigin : OcTreeKey) : RayState K where
  prevKey := ROOT_KEY
  currentKey := keyOrigin
  tMax := fun i => if r.step i = 0 then t.doubleMax else
    (t.keyToCoord (keyOrigin i) + r.step i * t.parameters.octreeResolution * 0.5 - r.origin i) / r.direction i
  squareDistFromOrigVec := t.squareDistFromOrig r.origin keyOrigin

def computeRayKeys (t : RobustOcTree K) (origin point forwardVec : Fin 3 → K) : Option (List (OccPrevKey K)) :=
  match t.coordToKeyChecked origin with
  | none => some []
  | some keyOrigin =>
    let r := t.ray origin point forwardVec
    if t.coordToKeyChecked point = none ∧
        t.coordToKeyChecked (fun i => origin i + r.direction i * (2.0 * t.parameters.maxRange)) = none then some []
    else t.castRay r rayCapacity (t.firstState r keyOrigin)

end RobustOcTree
end A17.Occmapping
