import A17.Lib.StackTraversal
import A17.Occmapping.Update
import Mathlib.Tactic.Linarith

/-!
# Visibilities

`calcVisibilities` of `robustoctree.cpp` gives each voxel of the update cache a visibility, from that of the voxel
before it on its ray and from the occupancies of its neighbors. The voxels are traversed along the graph of their
previous keys, down from `ROOT_KEY`, in the order in which the hash set and the hash map have them.

Each previous key is in the cache or the root, one voxel nearer to the sensor (`Rooted`), so all are reached. A cycle is
found only if the corner of the tree, which has the key of the root, is one of the voxels.
-/

namespace A17.Occmapping
open Dict GridLoops StackTraversal

inductive Warning where
  | originOutOfBounds
  | emptyKeyGraph
  | visIterNotFound
  | cycleDetected
deriving DecidableEq

/-- The map, and what has been warned of. -/
structure Visibilities (K : Type) where
  visibilities : List (OcTreeKey × K)
  warnings : List Warning

/-- The cells under their previous keys. -/
def keyGraph {K : Type} (cells : List (OccPrevKey K)) : List (OcTreeKey × List (OccPrevKey K)) :=
  cells.foldl (fun graph e => set graph e.prevKey ((graph.lookup e.prevKey).getD [] ++ [e])) []

/-- The key of the neighbor at the face that is seen from the sensor. -/
def neighborKey (originKey currKey : OcTreeKey) (i : Fin 3) : OcTreeKey :=
  Function.update currKey i
    (UInt16.ofInt ((currKey i).toNat - if (currKey i).toNat > (originKey i).toNat then 1 else -1))

namespace RobustOcTree
variable {K : Type} [Field K] [LinearOrder K]

def neighborOccupancy (t : RobustOcTree K) (search : OcTreeKey → Option K) (key : OcTreeKey) : K :=
  match search key with
  | none => 0.5
  | some occupancy => if occupancy ≤ t.parameters.clampingThresholdMin then 0 else occupancy

/-- The visibility behind a voxel of the given one. -/
def visibility (t : RobustOcTree K) (search : OcTreeKey → Option K) (originKey key : OcTreeKey) (before : K) : K :=
  let occupancies := fun i => t.neighborOccupancy search (neighborKey originKey key i)
  let occlusionProb := min (occupancies 0) (min (occupancies 1) (occupancies 2))
  let visibility := before * (t.parameters.probVisibleIfOccluded * occlusionProb +
    t.parameters.probVisibleIfNotOccluded * (1 - occlusionProb))
  if visibility > t.parameters.visibilityClampingMax then 1 else visibility

def calcKeyVisibility (t : RobustOcTree K) (search : OcTreeKey → Option K) (originKey : OcTreeKey)
    (s : Visibilities K) (key : OccPrevKey K) : Visibilities K :=
  match s.visibilities.lookup key.prevKey with
  | none => { s with warnings := s.warnings ++ [.visIterNotFound] }
  | some visIter =>
    { s with visibilities := set s.visibilities key.key (t.visibility search originKey key.key visIter) }

/-- What the traversal does. -/
def visGraph (t : RobustOcTree K) (search : OcTreeKey → Option K) (originKey : OcTreeKey)
    (cells : List (OccPrevKey K)) : Graph (OccPrevKey K) OcTreeKey (Visibilities K) where
  key := OccPrevKey.key
  find key := (keyGraph cells).lookup key
  visit := t.calcKeyVisibility search originKey
  cycle s := { s with warnings := s.warnings ++ [.cycleDetected] }

/-- The visibilities for the cells of the cache, in the order of the hash set. `search` is the occupancy of a node of
the tree. -/
def calcVisibilities (t : RobustOcTree K) (search : OcTreeKey → Option K) (fuel : Nat) (cells : List (OccPrevKey K))
    (visibilities : List (OcTreeKey × K)) (sensorOrigin : Fin 3 → K) : Option (Visibilities K) :=
  match t.coordToKeyChecked sensorOrigin with
  | none => some { visibilities, warnings := [.originOutOfBounds] }
  | some originKey =>
    match (keyGraph cells).lookup ROOT_KEY with
    | none => some { visibilities := [(ROOT_KEY, 1)], warnings := [.emptyKeyGraph] }
    | some currNode => (t.visGraph search originKey cells).run fuel
        { acc := { visibilities := [(ROOT_KEY, 1)], warnings := [] }, visited := [ROOT_KEY], stack := [],
          rest := currNode }

end RobustOcTree

/-! ### The graph -/

section
variable {K : Type} {cells : List (OccPrevKey K)} {o : OcTreeKey}

/-- Down from the voxel `o` of the sensor, each cell has the one before it. -/
structure Rooted (o : OcTreeKey) (cells : List (OccPrevKey K)) : Prop where
  nodup : (cells.map OccPrevKey.key).Nodup
  prev : ∀ e ∈ cells, e.key = o ∧ e.prevKey = ROOT_KEY ∨ ∃ a ∈ cells, Follows o a e

theorem keyDist_nonneg (o k : OcTreeKey) : 0 ≤ keyDist o k := Finset.sum_nonneg fun _ _ => abs_nonneg _

theorem Follows.toNat_lt {a b : OccPrevKey K} (h : Follows o a b) :
    (keyDist o a.key).toNat < (keyDist o b.key).toNat := by
  have := h.keyDist_eq
  have := keyDist_nonneg o a.key
  omega

theorem Rooted.perm (h : Rooted o cells) {cells' : List (OccPrevKey K)} (hperm : cells'.Perm cells) :
    Rooted o cells' := by
  refine ⟨(hperm.map _).nodup_iff.2 h.nodup, fun e he => ?_⟩
  rcases h.prev e (hperm.mem_iff.1 he) with hroot | ⟨a, ha, hfollows⟩
  · exact .inl hroot
  · exact .inr ⟨a, hperm.mem_iff.2 ha, hfollows⟩

variable [Field K] [LinearOrder K] {t : RobustOcTree K} {search : OcTreeKey → Option K}

/-- A solution: each voxel has the visibility behind the one before it. -/
structure RobustOcTree.IsVisibility (t : RobustOcTree K) (search : OcTreeKey → Option K) (o : OcTreeKey)
    (cells : List (OccPrevKey K)) (vis : OcTreeKey → Option K) : Prop where
  root : vis ROOT_KEY = some 1
  cell : ∀ e ∈ cells, ∃ before, vis e.prevKey = some before ∧ vis e.key = some (t.visibility search o e.key before)
  other : ∀ k, k ≠ ROOT_KEY → k ∉ cells.map OccPrevKey.key → vis k = none

theorem RobustOcTree.IsVisibility.perm {cells' : List (OccPrevKey K)} {vis : OcTreeKey → Option K}
    (h : t.IsVisibility search o cells vis) (hperm : cells.Perm cells') : t.IsVisibility search o cells' vis :=
  ⟨h.root, fun e he => h.cell e (hperm.mem_iff.2 he), fun k hk hmem =>
    h.other k hk fun h' => hmem ((hperm.map _).mem_iff.1 h')⟩

namespace RobustOcTree

variable [IsStrictOrderedRing K] [FloorRing K] {origin forwardVec : Fin 3 → K} {scan : List (Fin 3 → K)}

/-- The corner of the tree is above the highest cells, or out of range. -/
def BeforeCorner (t : RobustOcTree K) (origin : Fin 3 → K) (o : OcTreeKey) : Prop :=
  o ≠ ROOT_KEY ∧ t.maxZKey < 0xFFFF ∨ t.parameters.maxRange / t.parameters.octreeResolution *
    (t.parameters.maxRange / t.parameters.octreeResolution) ≤ t.squareDist origin ROOT_KEY

end RobustOcTree

end
end A17.Occmapping
