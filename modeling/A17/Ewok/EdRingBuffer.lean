import A17.Ewok.FillEdt
import A17.Ewok.OccupancyRuns
import A17.Lib.Truncation
import Mathlib.Algebra.BigOperators.Fin
import Mathlib.Algebra.Order.BigOperators.Group.Finset

/-!
# The distance ring buffer

`compute_edt3d` transforms the part of the volume that can have changed, one axis after the other. What a voxel of
that part gets is the distance to the nearest occupied voxel of the part (`computeEdt3d_spec`); obstacles outside the
part do not count. After a move the part is the whole volume. A part that is empty along one axis only has rows, and
where these begin outside of the arrays of `fill_edt` it writes there nevertheless (`computeEdt3d_isSome_iff`).
-/

namespace A17.Ewok
open GridLoops GridWindow ParabolaEnvelope Truncation
variable {POW : Nat} {K : Type}

structure EuclideanDistanceRingBuffer (POW : Nat) (K : Type) where
  resolution : K
  truncationDistance : K
  occupancyBuffer : RaycastRingBuffer POW K
  distanceBuffer : RingBufferBase POW K K
  tmpBuffer1 : RingBufferBase POW K K
  tmpBuffer2 : RingBufferBase POW K K

/-- The loops of one pass over the box: those over `a` and `b`, and the rows along the third axis. -/
def edtPass [Field K] [LinearOrder K] {σ : Type} (size : Nat) (maxScalar : K) (minA maxA minB maxB start stop : Int)
    (place : Int → Int → Int → Vector3i) (getVal : Vector3i → K) (setVal : Vector3i → K → σ → σ) (s : σ) : Option σ :=
  (span minA maxA).foldlM (fun s a => (span minB maxB).foldlM (fun s b =>
    fillEdt size maxScalar (fun q => getVal (place a b q)) (fun q val => setVal (place a b q) val) start stop s) s) s

namespace EuclideanDistanceRingBuffer

section
variable [Field K] [LinearOrder K] [FloorRing K]

/-- The constructor. -/
def new (POW : Nat) (maxScalar resolution truncationDistance : K) : EuclideanDistanceRingBuffer POW K where
  resolution := resolution
  truncationDistance := truncationDistance
  occupancyBuffer := .new POW resolution
  distanceBuffer := (RingBufferBase.new POW resolution truncationDistance).setEmptyElement maxScalar
  tmpBuffer1 := .new POW resolution 0
  tmpBuffer2 := .new POW resolution 0

/-- `truncation_distance_ / resolution_`, taken from a vector of integers. -/
def reach (s : EuclideanDistanceRingBuffer POW K) : Int := toInt (s.truncationDistance / s.resolution)

def minVec (s : EuclideanDistanceRingBuffer POW K) : Vector3i := fun i =>
  max (s.occupancyBuffer.updatedMin i - s.distanceBuffer.offset i - s.reach) 0

def maxVec (s : EuclideanDistanceRingBuffer POW K) : Vector3i := fun i =>
  min (s.occupancyBuffer.updatedMax i - s.distanceBuffer.offset i + s.reach) (N POW - 1)

/-- What the first pass reads. -/
def cost (maxScalar : K) (s : EuclideanDistanceRingBuffer POW K) (c : Vector3i) : K :=
  if s.occupancyBuffer.occupiedAt (s.distanceBuffer.offset + c) then 0 else maxScalar

def computeEdt3d (maxScalar : K) (sqrt : K → K) (s : EuclideanDistanceRingBuffer POW K) :
    Option (EuclideanDistanceRingBuffer POW K) := do
  let offset := s.distanceBuffer.offset
  let lo := s.minVec
  let hi := s.maxVec
  let tmp1 ← edtPass (N POW) maxScalar (lo 0) (hi 0) (lo 1) (hi 1) (lo 2) (hi 2) (fun x y z => ![x, y, z])
    (s.cost maxScalar) (fun c val (tmp : RingBufferBase POW K K) => tmp.setAt c val) s.tmpBuffer1
  let tmp2 ← edtPass (N POW) maxScalar (lo 0) (hi 0) (lo 2) (hi 2) (lo 1) (hi 1) (fun x z y => ![x, y, z])
    (fun c => tmp1.at_ c) (fun c val (tmp : RingBufferBase POW K K) => tmp.setAt c val) s.tmpBuffer2
  let distance ← edtPass (N POW) maxScalar (lo 1) (hi 1) (lo 2) (hi 2) (lo 0) (hi 0) (fun y z x => ![x, y, z])
    (fun c => tmp2.at_ c)
    (fun c val (distance : RingBufferBase POW K K) =>
      distance.setAt (offset + c) (min (s.resolution * sqrt val) s.truncationDistance)) s.distanceBuffer
  return { s with
    tmpBuffer1 := tmp1
    tmpBuffer2 := tmp2
    distanceBuffer := distance
    occupancyBuffer := s.occupancyBuffer.clearUpdatedMinMax }

def setOffset (s : EuclideanDistanceRingBuffer POW K) (off : Vector3i) : EuclideanDistanceRingBuffer POW K :=
  { s with occupancyBuffer := s.occupancyBuffer.setOffset off, distanceBuffer := s.distanceBuffer.setOffset off }

def moveVolume (s : EuclideanDistanceRingBuffer POW K) (direction : Vector3i) : EuclideanDistanceRingBuffer POW K :=
  { s with
    occupancyBuffer := s.occupancyBuffer.moveVolume direction
    distanceBuffer := s.distanceBuffer.moveVolume direction }

def insertPointCloud (maxScalar : K) (s : EuclideanDistanceRingBuffer POW K) (cloud : List (Fin 3 → K))
    (origin : Fin 3 → K) : EuclideanDistanceRingBuffer POW K :=
  { s with occupancyBuffer := s.occupancyBuffer.insertPointCloud maxScalar cloud origin }

def decay (s : EuclideanDistanceRingBuffer POW K) : EuclideanDistanceRingBuffer POW K :=
  { s with occupancyBuffer := s.occupancyBuffer.decay }

def getCloudDistance (s : EuclideanDistanceRingBuffer POW K) (distance : K) : List (Fin 3 → K) × (Fin 3 → K) :=
  s.distanceBuffer.getCloudHelper fun d => d ≤ distance

end

end EuclideanDistanceRingBuffer

/-! ### One pass -/

/-- The voxels of a pass, in the order of its loops. -/
def passVoxels (minA maxA minB maxB start stop : Int) (place : Int → Int → Int → Vector3i) : List Vector3i :=
  (span minA maxA).flatMap fun a => (span minB maxB).flatMap fun b => (span start stop).map (place a b)

section
variable [Field K] [LinearOrder K] [IsStrictOrderedRing K] {maxScalar : K} {minA maxA minB maxB start stop : Int}
  {place : Int → Int → Int → Vector3i} {getVal w : Vector3i → K}

theorem foldlM_span_eq {σ : Type} {body : σ → Int → Option σ} {body' : σ → Int → σ} {lo hi : Int} (s : σ)
    (h : ∀ s k, lo ≤ k → k ≤ hi → body s k = some (body' s k)) :
    (span lo hi).foldlM body s = some ((span lo hi).foldl body' s) := by
  have hall : ∀ k ∈ span lo hi, lo ≤ k ∧ k ≤ hi := fun k hk => mem_span.1 hk
  generalize span lo hi = l at hall
  induction l generalizing s with
  | nil => rfl
  | cons k l ih =>
    obtain ⟨hlo, hhi⟩ := hall k List.mem_cons_self
    rw [List.foldlM_cons, h s k hlo hhi, List.foldl_cons]
    exact ih (body' s k) fun k hk => hall k (List.mem_cons_of_mem _ hk)

/-- A pass over a box with something in it writes to each voxel the least value of its row. -/
theorem edtPass_eq {σ : Type} {size : Nat} (hle : start ≤ stop) (hsize : stop < size)
    (hf : ∀ a b, minA ≤ a → a ≤ maxA → minB ≤ b → b ≤ maxB →
      Heights (fun q => getVal (place a b q)) maxScalar start stop)
    (hw : ∀ a b q, minA ≤ a → a ≤ maxA → minB ≤ b → b ≤ maxB → start ≤ q → q ≤ stop →
      IsLeast (rowValues (fun q => getVal (place a b q)) start stop q) (w (place a b q)))
    (setVal : Vector3i → K → σ → σ) (s : σ) :
    edtPass size maxScalar minA maxA minB maxB start stop place getVal setVal s =
      some ((passVoxels minA maxA minB maxB start stop place).foldl (fun s c => setVal c (w c) s) s) := by
  unfold edtPass passVoxels
  simp only [List.foldl_flatMap, List.foldl_map]
  refine foldlM_span_eq s fun s a ha ha' => foldlM_span_eq s fun s b hb hb' => ?_
  exact fillEdt_eq (hf a b ha ha' hb hb') hle hsize (fun q hq hq' => hw a b q ha ha' hb hb' hq hq') _ s

/-- A loop with a body that does nothing or fails. -/
theorem foldlM_ite {σ : Type} {p : Prop} [Decidable p] (lo hi : Int) (s : σ) :
    (span lo hi).foldlM (fun s (_ : Int) => if p then some s else none) s = if lo ≤ hi → p then some s else none := by
  by_cases hle : lo ≤ hi
  · by_cases hp : p
    · simp only [hp, if_true, implies_true]
      have hskip : ∀ l : List Int, l.foldlM (fun s (_ : Int) => some s) s = some s := by
        intro l
        induction l with
        | nil => rfl
        | cons _ l ih => exact ih
      exact hskip _
    · obtain ⟨k, l, hl⟩ : ∃ k l, span lo hi = k :: l := List.exists_cons_of_ne_nil fun hnil => by
        have hmem := mem_span.2 ⟨le_rfl, hle⟩
        rw [hnil] at hmem
        cases hmem
      rw [hl, List.foldlM_cons, if_neg hp, if_neg fun h => hp (h hle)]
      rfl
  · rw [span_of_lt (not_le.1 hle), if_pos fun h => absurd h hle]
    rfl

omit [IsStrictOrderedRing K] in
/-- A pass with an empty box does nothing, but for the first entries of the arrays, which are written if it comes to
a row. -/
theorem edtPass_of_empty {σ : Type} {size : Nat} (h : maxA < minA ∨ maxB < minB ∨ stop < start) (h0 : 0 ≤ start)
    (hsize : start ≤ stop → start < size) (setVal : Vector3i → K → σ → σ) (s : σ) :
    edtPass size maxScalar minA maxA minB maxB start stop place getVal setVal s =
      if minA ≤ maxA → minB ≤ maxB → start < size then some s else none := by
  unfold edtPass
  by_cases hrow : stop < start
  · simp only [fillEdt_of_lt _ _ _ _ hrow, foldlM_ite, h0, true_and]
  · rw [if_pos fun _ _ => hsize (not_lt.1 hrow)]
    rcases h with h | h | h
    · rw [span_of_lt h]
      rfl
    · have hskip : ∀ (l : List Int) (s : σ), l.foldlM (fun s (_ : Int) => some s) s = some s := by
        intro l
        induction l with
        | nil => exact fun _ => rfl
        | cons _ l ih => exact ih
      rw [span_of_lt h]
      exact hskip _ s
    · exact absurd h hrow

end

/-! ### The three passes -/

/-- The squared distance of two voxels. -/
def sqDist (c d : Vector3i) : Int := ∑ i, (c i - d i) * (c i - d i)

def InBox (lo hi c : Vector3i) : Prop := ∀ i, lo i ≤ c i ∧ c i ≤ hi i

instance {lo hi c : Vector3i} : Decidable (InBox lo hi c) := inferInstanceAs (Decidable (∀ _, _))

section
variable {lo hi c : Vector3i} {h w : Vector3i → K}

theorem inBox_iff {x y z : Int} : InBox lo hi ![x, y, z] ↔
    (lo 0 ≤ x ∧ x ≤ hi 0) ∧ (lo 1 ≤ y ∧ y ≤ hi 1) ∧ lo 2 ≤ z ∧ z ≤ hi 2 := by
  constructor
  · intro h
    exact ⟨h 0, h 1, h 2⟩
  · rintro ⟨h0, h1, h2⟩ i
    fin_cases i
    exacts [h0, h1, h2]

theorem mem_passVoxels {minA maxA minB maxB start stop : Int} {place : Int → Int → Int → Vector3i} :
    c ∈ passVoxels minA maxA minB maxB start stop place ↔ ∃ a b q, (minA ≤ a ∧ a ≤ maxA) ∧ (minB ≤ b ∧ b ≤ maxB) ∧
      (start ≤ q ∧ q ≤ stop) ∧ place a b q = c := by
  simp only [passVoxels, List.mem_flatMap, List.mem_map, mem_span]
  constructor
  · rintro ⟨a, ha, b, hb, q, hq, rfl⟩
    exact ⟨a, b, q, ha, hb, hq, rfl⟩
  · rintro ⟨a, b, q, ha, hb, hq, rfl⟩
    exact ⟨a, ha, b, hb, q, hq, rfl⟩

theorem mem_passVoxels_z :
    c ∈ passVoxels (lo 0) (hi 0) (lo 1) (hi 1) (lo 2) (hi 2) (fun x y z => ![x, y, z]) ↔ InBox lo hi c := by
  rw [mem_passVoxels]
  constructor
  · rintro ⟨x, y, z, hx, hy, hz, rfl⟩
    exact inBox_iff.2 ⟨hx, hy, hz⟩
  · intro h
    exact ⟨c 0, c 1, c 2, h 0, h 1, h 2, vec_eta c⟩

theorem mem_passVoxels_y :
    c ∈ passVoxels (lo 0) (hi 0) (lo 2) (hi 2) (lo 1) (hi 1) (fun x z y => ![x, y, z]) ↔ InBox lo hi c := by
  rw [mem_passVoxels]
  constructor
  · rintro ⟨x, z, y, hx, hz, hy, rfl⟩
    exact inBox_iff.2 ⟨hx, hy, hz⟩
  · intro h
    exact ⟨c 0, c 2, c 1, h 0, h 2, h 1, vec_eta c⟩

theorem mem_passVoxels_x :
    c ∈ passVoxels (lo 1) (hi 1) (lo 2) (hi 2) (lo 0) (hi 0) (fun y z x => ![x, y, z]) ↔ InBox lo hi c := by
  rw [mem_passVoxels]
  constructor
  · rintro ⟨y, z, x, hy, hz, hx, rfl⟩
    exact inBox_iff.2 ⟨hx, hy, hz⟩
  · intro h
    exact ⟨c 1, c 2, c 0, h 1, h 2, h 0, vec_eta c⟩

/-- Of a box that is stored without overlap each voxel reads what was written to it, and the rest as before. -/
theorem at_foldl_setAt_of_inside (b : RingBufferBase POW K K) (w : Vector3i → K) {shift d : Vector3i}
    (cs : List Vector3i)
    (hin : ∀ c ∈ cs, Inside (N POW) shift (shift + c)) (hd : Inside (N POW) shift (shift + d)) :
    (cs.foldl (fun b c => b.setAt (shift + c) (w c)) b).at_ (shift + d) =
      if d ∈ cs then w d else b.at_ (shift + d) := by
  induction cs using List.reverseRecOn with
  | nil => simp
  | append_singleton cs c ih =>
    have hcongr : Congr (N POW) (shift + c) (shift + d) ↔ c = d := by
      constructor
      · intro h
        have heq := (hin c (by simp)).eq (cast_N_pos POW) hd h
        exact add_left_cancel heq
      · rintro rfl
        exact Congr.refl _ _
    rw [List.foldl_concat, RingBufferBase.at_setAt, ih fun c hc => hin c (List.mem_append_left _ hc)]
    simp only [hcongr, List.mem_append, List.mem_singleton]
    by_cases hcd : c = d
    · subst hcd
      simp
    · simp only [hcd, if_false, Ne.symm hcd, or_false]

variable [Field K]

/-- What a voxel is offered along the row of an axis. -/
def axisValues (h : Vector3i → K) (lo hi : Vector3i) (axis : Fin 3) (c : Vector3i) : Set K :=
  rowValues (fun p => h (Function.update c axis p)) (lo axis) (hi axis) (c axis)

/-- What it is offered by all voxels of the box. -/
def boxValues (h : Vector3i → K) (lo hi c : Vector3i) : Set K := {y | ∃ d, InBox lo hi d ∧ y = sqDist c d + h d}

theorem axisValues_z {x y z : Int} : axisValues h lo hi 2 ![x, y, z] =
    rowValues (fun q => h ![x, y, q]) (lo 2) (hi 2) z := by
  have hupd : ∀ p, Function.update (![x, y, z] : Vector3i) 2 p = ![x, y, p] := by
    intro p
    funext i
    fin_cases i <;> rfl
  unfold axisValues
  simp only [hupd]
  rfl

theorem axisValues_y {x y z : Int} : axisValues h lo hi 1 ![x, y, z] =
    rowValues (fun q => h ![x, q, z]) (lo 1) (hi 1) y := by
  have hupd : ∀ p, Function.update (![x, y, z] : Vector3i) 1 p = ![x, p, z] := by
    intro p
    funext i
    fin_cases i <;> rfl
  unfold axisValues
  simp only [hupd]
  rfl

theorem axisValues_x {x y z : Int} : axisValues h lo hi 0 ![x, y, z] =
    rowValues (fun q => h ![q, y, z]) (lo 0) (hi 0) x := by
  have hupd : ∀ p, Function.update (![x, y, z] : Vector3i) 0 p = ![p, y, z] := by
    intro p
    funext i
    fin_cases i <;> rfl
  unfold axisValues
  simp only [hupd]
  rfl

theorem sqDist_vec {x y z a b e : Int} :
    sqDist ![x, y, z] ![a, b, e] = (x - a) * (x - a) + (y - b) * (y - b) + (z - e) * (z - e) :=
  Fin.sum_univ_three _

theorem sqDist_nonneg (c d : Vector3i) : 0 ≤ sqDist c d := Finset.sum_nonneg fun _ _ => mul_self_nonneg _

variable [LinearOrder K] [IsStrictOrderedRing K] {maxScalar : K} {w1 w2 w3 : Vector3i → K}

/-- The least value of the box is the least along one axis of the least along the next, and so on. -/
theorem isLeast_boxValues (h1 : ∀ c, InBox lo hi c → IsLeast (axisValues h lo hi 2 c) (w1 c))
    (h2 : ∀ c, InBox lo hi c → IsLeast (axisValues w1 lo hi 1 c) (w2 c))
    (h3 : ∀ c, InBox lo hi c → IsLeast (axisValues w2 lo hi 0 c) (w3 c)) (hc : InBox lo hi c) :
    IsLeast (boxValues h lo hi c) (w3 c) := by
  have hvec : ∀ c : Vector3i, ∃ x y z, c = ![x, y, z] := fun c => ⟨_, _, _, (vec_eta c).symm⟩
  obtain ⟨x, y, z, rfl⟩ := hvec c
  obtain ⟨hx, hy, hz⟩ := inBox_iff.1 hc
  have hx3 := h3 _ hc
  rw [axisValues_x] at hx3
  constructor
  · obtain ⟨a, ha, ha', heq⟩ := hx3.1
    have hy2 := h2 _ (inBox_iff.2 ⟨⟨ha, ha'⟩, hy, hz⟩)
    rw [axisValues_y] at hy2
    obtain ⟨b, hb, hb', heq'⟩ := hy2.1
    have hz1 := h1 _ (inBox_iff.2 ⟨⟨ha, ha'⟩, ⟨hb, hb'⟩, hz⟩)
    rw [axisValues_z] at hz1
    obtain ⟨e, he, he', heq''⟩ := hz1.1
    refine ⟨![a, b, e], inBox_iff.2 ⟨⟨ha, ha'⟩, ⟨hb, hb'⟩, he, he'⟩, ?_⟩
    rw [heq, parabola, heq', parabola, heq'', parabola, sqDist_vec]
    push_cast
    ring
  · rintro v ⟨d, hd, rfl⟩
    obtain ⟨a, b, e, rfl⟩ := hvec d
    obtain ⟨ha, hb, he⟩ := inBox_iff.1 hd
    have hy2 := h2 _ (inBox_iff.2 ⟨ha, hy, hz⟩)
    have hz1 := h1 _ (inBox_iff.2 ⟨ha, hb, hz⟩)
    rw [axisValues_y] at hy2
    rw [axisValues_z] at hz1
    calc w3 ![x, y, z] ≤ (x - a) * (x - a) + w2 ![a, y, z] := hx3.2 ⟨a, ha.1, ha.2, rfl⟩
      _ ≤ (x - a) * (x - a) + ((y - b) * (y - b) + w1 ![a, b, z]) :=
        add_le_add_right (hy2.2 ⟨b, hb.1, hb.2, rfl⟩) _
      _ ≤ (x - a) * (x - a) + ((y - b) * (y - b) + ((z - e) * (z - e) + h ![a, b, e])) :=
        add_le_add_right (add_le_add_right (hz1.2 ⟨e, he.1, he.2, rfl⟩) _) _
      _ = sqDist ![x, y, z] ![a, b, e] + h ![a, b, e] := by
        rw [sqDist_vec]
        push_cast
        ring

/-- The values of a pass are no greater than what it reads, so the scalar type has room for them. -/
theorem axis_bounds {axis : Fin 3} {y : K} (hh : ∀ c, InBox lo hi c → 0 ≤ h c ∧ h c ≤ maxScalar) (hc : InBox lo hi c)
    (hy : IsLeast (axisValues h lo hi axis c) y) : 0 ≤ y ∧ y ≤ maxScalar := by
  have hupd : ∀ p, lo axis ≤ p → p ≤ hi axis → InBox lo hi (Function.update c axis p) := by
    intro p hp hp' i
    by_cases hi : i = axis
    · subst hi
      rw [Function.update_self]
      exact ⟨hp, hp'⟩
    · rw [Function.update_of_ne hi]
      exact hc i
  constructor
  · obtain ⟨p, hp, hp', rfl⟩ := hy.1
    exact add_nonneg (mul_self_nonneg _) (hh _ (hupd p hp hp')).1
  · refine (hy.2 ⟨c axis, (hc axis).1, (hc axis).2, rfl⟩).trans ?_
    rw [parabola, sub_self, mul_zero, zero_add, Function.update_eq_self]
    exact (hh c hc).2

omit [IsStrictOrderedRing K] in
theorem exists_axis (lo hi : Vector3i) (h : Vector3i → K) (axis : Fin 3) :
    ∃ w : Vector3i → K, ∀ c, InBox lo hi c → IsLeast (axisValues h lo hi axis c) (w c) := by
  have hall : ∀ c, ∃ y, InBox lo hi c → IsLeast (axisValues h lo hi axis c) y := by
    intro c
    by_cases hc : InBox lo hi c
    · obtain ⟨y, hy⟩ := exists_isLeast_rowValues (fun p => h (Function.update c axis p))
        ((hc axis).1.trans (hc axis).2) (c axis)
      exact ⟨y, fun _ => hy⟩
    · exact ⟨0, fun h => absurd h hc⟩
  choose w hw using hall
  exact ⟨w, hw⟩

end

namespace EuclideanDistanceRingBuffer

theorem foldl_setAt_frame (cs : List Vector3i) (shift : Vector3i) (w : Vector3i → K) (b : RingBufferBase POW K K) :
    (cs.foldl (fun b c => b.setAt (shift + c) (w c)) b).resolution = b.resolution ∧
      (cs.foldl (fun b c => b.setAt (shift + c) (w c)) b).offset = b.offset :=
  Run.invariant (I := fun b' : RingBufferBase POW K K => b'.resolution = b.resolution ∧ b'.offset = b.offset)
    (fun _ _ h => h) ⟨rfl, rfl⟩

section
variable [Field K] [LinearOrder K] [FloorRing K] {s : EuclideanDistanceRingBuffer POW K} {maxScalar : K}
  {sqrt : K → K} {d : Vector3i}

theorem box_bounds (s : EuclideanDistanceRingBuffer POW K) (i : Fin 3) : 0 ≤ s.minVec i ∧ s.maxVec i ≤ N POW - 1 :=
  ⟨le_max_right _ _, min_le_right _ _⟩

theorem inside_of_inBox {shift : Vector3i} (h : InBox s.minVec s.maxVec d) : Inside (N POW) shift (shift + d) := by
  intro i
  have := s.box_bounds i
  have := h i
  simp only [Pi.add_apply]
  omega

/-- A temporary buffer reads in the box what was written to it. -/
theorem at_tmp {cs : List Vector3i} (hcs : ∀ c, c ∈ cs ↔ InBox s.minVec s.maxVec c) (w : Vector3i → K)
    (b : RingBufferBase POW K K) (hd : InBox s.minVec s.maxVec d) :
    (cs.foldl (fun b c => b.setAt c (w c)) b).at_ d = w d := by
  have hin : ∀ {c}, InBox s.minVec s.maxVec c → Inside (N POW) 0 (0 + c) := inside_of_inBox
  have h := at_foldl_setAt_of_inside b w cs (fun c hc => hin ((hcs c).1 hc)) (hin hd)
  rw [if_pos ((hcs d).2 hd)] at h
  simpa only [zero_add] using h

/-- What holds after `compute_edt3d`. -/
structure Transformed (maxScalar : K) (sqrt : K → K) (s t : EuclideanDistanceRingBuffer POW K) : Prop where
  resolution_eq : t.resolution = s.resolution
  truncationDistance_eq : t.truncationDistance = s.truncationDistance
  occupancyBuffer_eq : t.occupancyBuffer = s.occupancyBuffer.clearUpdatedMinMax
  distanceResolution_eq : t.distanceBuffer.resolution = s.distanceBuffer.resolution
  offset_eq : t.distanceBuffer.offset = s.distanceBuffer.offset
  inner : ∀ d, InBox s.minVec s.maxVec d → ∃ v, IsLeast (boxValues (s.cost maxScalar) s.minVec s.maxVec d) v ∧
    t.distanceBuffer.at_ (s.distanceBuffer.offset + d) = min (s.resolution * sqrt v) s.truncationDistance
  outer : ∀ d, Inside (N POW) s.distanceBuffer.offset (s.distanceBuffer.offset + d) → ¬ InBox s.minVec s.maxVec d →
    t.distanceBuffer.at_ (s.distanceBuffer.offset + d) = s.distanceBuffer.at_ (s.distanceBuffer.offset + d)

omit [FloorRing K] in
theorem cost_bounds (hmax : 0 ≤ maxScalar) (s : EuclideanDistanceRingBuffer POW K) (c : Vector3i) :
    0 ≤ s.cost maxScalar c ∧ s.cost maxScalar c ≤ maxScalar := by
  unfold cost
  split
  exacts [⟨le_rfl, hmax⟩, ⟨hmax, le_rfl⟩]

/-- Wherever `fill_edt` is called, the row begins in its arrays: a row that does not is not reached. -/
def InArrays (s : EuclideanDistanceRingBuffer POW K) : Prop :=
  ∀ i, N POW ≤ s.minVec i → ∃ j, j ≠ i ∧ s.maxVec j < s.minVec j

instance : Decidable s.InArrays := inferInstanceAs (Decidable (∀ _, _ → _))

theorem inArrays_iff : s.InArrays ↔
    (s.minVec 0 ≤ s.maxVec 0 → s.minVec 1 ≤ s.maxVec 1 → s.minVec 2 < N POW) ∧
    (s.minVec 0 ≤ s.maxVec 0 → s.minVec 2 ≤ s.maxVec 2 → s.minVec 1 < N POW) ∧
    (s.minVec 1 ≤ s.maxVec 1 → s.minVec 2 ≤ s.maxVec 2 → s.minVec 0 < N POW) := by
  have haxis : ∀ j : Fin 3, j = 0 ∨ j = 1 ∨ j = 2 := by omega
  constructor
  · intro h
    refine ⟨fun hx hy => not_le.1 fun hz => ?_, fun hx hz => not_le.1 fun hy => ?_, fun hy hz => not_le.1 fun hx => ?_⟩
    · obtain ⟨j, hj, hlt⟩ := h 2 hz
      rcases haxis j with rfl | rfl | rfl
      exacts [absurd hx (not_le.2 hlt), absurd hy (not_le.2 hlt), hj rfl]
    · obtain ⟨j, hj, hlt⟩ := h 1 hy
      rcases haxis j with rfl | rfl | rfl
      exacts [absurd hx (not_le.2 hlt), hj rfl, absurd hz (not_le.2 hlt)]
    · obtain ⟨j, hj, hlt⟩ := h 0 hx
      rcases haxis j with rfl | rfl | rfl
      exacts [hj rfl, absurd hy (not_le.2 hlt), absurd hz (not_le.2 hlt)]
  · rintro ⟨hz, hy, hx⟩ i hi
    by_contra hnone
    have hle : ∀ j, j ≠ i → s.minVec j ≤ s.maxVec j := fun j hj => not_lt.1 fun hlt => hnone ⟨j, hj, hlt⟩
    rcases haxis i with rfl | rfl | rfl
    · exact absurd hi (not_le.2 (hx (hle 1 (by decide)) (hle 2 (by decide))))
    · exact absurd hi (not_le.2 (hy (hle 0 (by decide)) (hle 2 (by decide))))
    · exact absurd hi (not_le.2 (hz (hle 0 (by decide)) (hle 1 (by decide))))

/-- When the box is empty nothing is written, as long as the passes stay in the arrays. -/
theorem computeEdt3d_of_empty (s : EuclideanDistanceRingBuffer POW K) (h : ∃ i, s.maxVec i < s.minVec i) :
    s.computeEdt3d maxScalar sqrt =
      if s.InArrays then some { s with occupancyBuffer := s.occupancyBuffer.clearUpdatedMinMax } else none := by
  obtain ⟨i, hi⟩ := h
  have haxes : s.maxVec 0 < s.minVec 0 ∨ s.maxVec 1 < s.minVec 1 ∨ s.maxVec 2 < s.minVec 2 := by
    fin_cases i
    exacts [.inl hi, .inr (.inl hi), .inr (.inr hi)]
  have hrow : ∀ i, 0 ≤ s.minVec i ∧ (s.minVec i ≤ s.maxVec i → s.minVec i < N POW) := by
    intro i
    have := s.box_bounds i
    omega
  rw [if_congr inArrays_iff rfl rfl]
  unfold computeEdt3d
  dsimp only
  rw [edtPass_of_empty haxes (hrow 2).1 (hrow 2).2]
  by_cases hz : s.minVec 0 ≤ s.maxVec 0 → s.minVec 1 ≤ s.maxVec 1 → s.minVec 2 < N POW
  · simp only [if_pos hz, Option.bind_eq_bind, Option.bind_some]
    rw [edtPass_of_empty (by tauto) (hrow 1).1 (hrow 1).2]
    by_cases hy : s.minVec 0 ≤ s.maxVec 0 → s.minVec 2 ≤ s.maxVec 2 → s.minVec 1 < N POW
    · simp only [if_pos hy, Option.bind_some]
      rw [edtPass_of_empty (by tauto) (hrow 0).1 (hrow 0).2]
      by_cases hx : s.minVec 1 ≤ s.maxVec 1 → s.minVec 2 ≤ s.maxVec 2 → s.minVec 0 < N POW
      · rw [if_pos hx, if_pos ⟨hz, hy, hx⟩]
        rfl
      · rw [if_neg hx, if_neg fun hin => hx hin.2.2]
        rfl
    · rw [if_neg hy, if_neg fun hin => hy hin.2.1]
      rfl
  · rw [if_neg hz, if_neg fun hin => hz hin.1]
    rfl

end

variable [Field K] [LinearOrder K] [IsStrictOrderedRing K] [FloorRing K] {s : EuclideanDistanceRingBuffer POW K}
  {maxScalar : K} {sqrt : K → K} {d : Vector3i}

theorem heights {h : Vector3i → K} {axis : Fin 3} {row : Int → Vector3i} (hmax : ((N POW : Int) : K) ≤ maxScalar)
    (hh : ∀ c, InBox s.minVec s.maxVec c → 0 ≤ h c ∧ h c ≤ maxScalar)
    (hrow : ∀ q, s.minVec axis ≤ q → q ≤ s.maxVec axis → InBox s.minVec s.maxVec (row q)) :
    Heights (fun q => h (row q)) maxScalar (s.minVec axis) (s.maxVec axis) where
  start_nonneg := (s.box_bounds axis).1
  stop_le := by
    have hstop : ((s.maxVec axis : Int) : K) ≤ ((N POW : Int) : K) :=
      Int.cast_le.2 ((s.box_bounds axis).2.trans (by omega))
    exact hstop.trans hmax
  nonneg q hq hq' := (hh _ (hrow q hq hq')).1
  le_max q hq hq' := (hh _ (hrow q hq hq')).2

theorem computeEdt3d_spec (hmax : ((N POW : Int) : K) ≤ maxScalar) (sqrt : K → K)
    (hin : s.InArrays) : ∃ t, s.computeEdt3d maxScalar sqrt = some t ∧ Transformed maxScalar sqrt s t := by
  by_cases hbox : ∃ i, s.maxVec i < s.minVec i
  · refine ⟨_, (computeEdt3d_of_empty s hbox).trans (if_pos hin), rfl, rfl, rfl, rfl, rfl, fun d hd => ?_,
      fun d _ _ => rfl⟩
    obtain ⟨i, hi⟩ := hbox
    exact absurd ((hd i).1.trans (hd i).2) (not_le.2 hi)
  · have hle : ∀ i, s.minVec i ≤ s.maxVec i := fun i => not_lt.1 fun h => hbox ⟨i, h⟩
    have hsize : ∀ i, s.maxVec i < N POW := fun i => by
      have := (s.box_bounds i).2
      omega
    have hnonneg : 0 ≤ maxScalar := (Int.cast_nonneg (cast_N_pos POW).le).trans hmax
    have hcost : ∀ c, InBox s.minVec s.maxVec c → 0 ≤ s.cost maxScalar c ∧ s.cost maxScalar c ≤ maxScalar :=
      fun c _ => s.cost_bounds hnonneg c
    -- along z
    obtain ⟨w1, hw1⟩ := exists_axis s.minVec s.maxVec (s.cost maxScalar) 2
    let tmp1 := (passVoxels (s.minVec 0) (s.maxVec 0) (s.minVec 1) (s.maxVec 1) (s.minVec 2) (s.maxVec 2)
      fun x y z => ![x, y, z]).foldl (fun (b : RingBufferBase POW K K) c => b.setAt c (w1 c)) s.tmpBuffer1
    have htmp1 : ∀ c, InBox s.minVec s.maxVec c → tmp1.at_ c = w1 c := fun c hc =>
      at_tmp (fun _ => mem_passVoxels_z) w1 _ hc
    have hleast1 : ∀ c, InBox s.minVec s.maxVec c →
        IsLeast (axisValues (s.cost maxScalar) s.minVec s.maxVec 2 c) (tmp1.at_ c) := by
      intro c hc
      rw [htmp1 c hc]
      exact hw1 c hc
    have hbound1 : ∀ c, InBox s.minVec s.maxVec c → 0 ≤ tmp1.at_ c ∧ tmp1.at_ c ≤ maxScalar := fun c hc =>
      axis_bounds hcost hc (hleast1 c hc)
    -- along y
    obtain ⟨w2, hw2⟩ := exists_axis s.minVec s.maxVec tmp1.at_ 1
    let tmp2 := (passVoxels (s.minVec 0) (s.maxVec 0) (s.minVec 2) (s.maxVec 2) (s.minVec 1) (s.maxVec 1)
      fun x z y => ![x, y, z]).foldl (fun (b : RingBufferBase POW K K) c => b.setAt c (w2 c)) s.tmpBuffer2
    have htmp2 : ∀ c, InBox s.minVec s.maxVec c → tmp2.at_ c = w2 c := fun c hc =>
      at_tmp (fun _ => mem_passVoxels_y) w2 _ hc
    have hleast2 : ∀ c, InBox s.minVec s.maxVec c →
        IsLeast (axisValues tmp1.at_ s.minVec s.maxVec 1 c) (tmp2.at_ c) := by
      intro c hc
      rw [htmp2 c hc]
      exact hw2 c hc
    have hbound2 : ∀ c, InBox s.minVec s.maxVec c → 0 ≤ tmp2.at_ c ∧ tmp2.at_ c ≤ maxScalar := fun c hc =>
      axis_bounds hbound1 hc (hleast2 c hc)
    -- along x
    obtain ⟨w3, hw3⟩ := exists_axis s.minVec s.maxVec tmp2.at_ 0
    let offset := s.distanceBuffer.offset
    let value := fun c => min (s.resolution * sqrt (w3 c)) s.truncationDistance
    let distance := (passVoxels (s.minVec 1) (s.maxVec 1) (s.minVec 2) (s.maxVec 2) (s.minVec 0) (s.maxVec 0)
      fun y z x => ![x, y, z]).foldl (fun (b : RingBufferBase POW K K) c => b.setAt (offset + c) (value c))
        s.distanceBuffer
    have hpass1 : edtPass (N POW) maxScalar (s.minVec 0) (s.maxVec 0) (s.minVec 1) (s.maxVec 1)
        (s.minVec 2) (s.maxVec 2) (fun x y z => ![x, y, z]) (s.cost maxScalar)
        (fun c val (tmp : RingBufferBase POW K K) => tmp.setAt c val) s.tmpBuffer1 = some tmp1 := by
      refine edtPass_eq (hle 2) (hsize 2) (fun x y hx hx' hy hy' => heights hmax hcost fun z hz hz' => ?_)
        (fun x y z hx hx' hy hy' hz hz' => ?_) _ _
      · exact inBox_iff.2 ⟨⟨hx, hx'⟩, ⟨hy, hy'⟩, hz, hz'⟩
      · rw [← axisValues_z]
        exact hw1 _ (inBox_iff.2 ⟨⟨hx, hx'⟩, ⟨hy, hy'⟩, hz, hz'⟩)
    have hpass2 : edtPass (N POW) maxScalar (s.minVec 0) (s.maxVec 0) (s.minVec 2) (s.maxVec 2)
        (s.minVec 1) (s.maxVec 1) (fun x z y => ![x, y, z]) (fun c => tmp1.at_ c)
        (fun c val (tmp : RingBufferBase POW K K) => tmp.setAt c val) s.tmpBuffer2 = some tmp2 := by
      refine edtPass_eq (hle 1) (hsize 1) (fun x z hx hx' hz hz' => heights hmax hbound1 fun y hy hy' => ?_)
        (fun x z y hx hx' hz hz' hy hy' => ?_) _ _
      · exact inBox_iff.2 ⟨⟨hx, hx'⟩, ⟨hy, hy'⟩, hz, hz'⟩
      · rw [← axisValues_y]
        exact hw2 _ (inBox_iff.2 ⟨⟨hx, hx'⟩, ⟨hy, hy'⟩, hz, hz'⟩)
    have hpass3 : edtPass (N POW) maxScalar (s.minVec 1) (s.maxVec 1) (s.minVec 2) (s.maxVec 2)
        (s.minVec 0) (s.maxVec 0) (fun y z x => ![x, y, z]) (fun c => tmp2.at_ c)
        (fun c val (distance : RingBufferBase POW K K) =>
          distance.setAt (offset + c) (min (s.resolution * sqrt val) s.truncationDistance)) s.distanceBuffer =
        some distance := by
      refine edtPass_eq (w := w3) (hle 0) (hsize 0) (fun y z hy hy' hz hz' => heights hmax hbound2 fun x hx hx' => ?_)
        (fun y z x hy hy' hz hz' hx hx' => ?_) _ _
      · exact inBox_iff.2 ⟨⟨hx, hx'⟩, ⟨hy, hy'⟩, hz, hz'⟩
      · rw [← axisValues_x]
        exact hw3 _ (inBox_iff.2 ⟨⟨hx, hx'⟩, ⟨hy, hy'⟩, hz, hz'⟩)
    have hdistance : ∀ d, Inside (N POW) offset (offset + d) → distance.at_ (offset + d) =
        if InBox s.minVec s.maxVec d then value d else s.distanceBuffer.at_ (offset + d) := by
      intro d hd
      have h := at_foldl_setAt_of_inside s.distanceBuffer value _
        (fun c hc => inside_of_inBox (s := s) (mem_passVoxels_x.1 hc)) hd
      simp only [mem_passVoxels_x] at h
      exact h
    refine ⟨{ s with
      tmpBuffer1 := tmp1
      tmpBuffer2 := tmp2
      distanceBuffer := distance
      occupancyBuffer := s.occupancyBuffer.clearUpdatedMinMax }, ?_, rfl, rfl, rfl, (foldl_setAt_frame ..).1,
      (foldl_setAt_frame ..).2, fun d hd => ?_, fun d hd hout => ?_⟩
    · unfold computeEdt3d
      dsimp only
      rw [hpass1]
      simp only [Option.bind_eq_bind, Option.bind_some]
      rw [hpass2]
      simp only [Option.bind_some]
      rw [hpass3]
      rfl
    · refine ⟨w3 d, isLeast_boxValues hleast1 hleast2 hw3 hd, ?_⟩
      rw [hdistance d (inside_of_inBox hd), if_pos hd]
    · rw [hdistance d hd, if_neg hout]

/-- The update writes outside of the arrays exactly if one axis of the box is empty, begins after the last voxel, and
the other two are not empty. -/
theorem computeEdt3d_isSome_iff (hmax : ((N POW : Int) : K) ≤ maxScalar) (sqrt : K → K)
    (s : EuclideanDistanceRingBuffer POW K) : (s.computeEdt3d maxScalar sqrt).isSome = true ↔ s.InArrays := by
  constructor
  · intro hsome
    by_cases hbox : ∃ i, s.maxVec i < s.minVec i
    · rw [computeEdt3d_of_empty s hbox] at hsome
      by_contra hout
      rw [if_neg hout] at hsome
      cases hsome
    · intro i hi
      have hle := not_lt.1 fun h => hbox ⟨i, h⟩
      have := s.box_bounds i
      omega
  · intro hin
    obtain ⟨t, ht, -⟩ := computeEdt3d_spec hmax sqrt hin
    rw [ht]
    rfl

end EuclideanDistanceRingBuffer
end A17.Ewok
