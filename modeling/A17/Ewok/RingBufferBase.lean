import A17.Lib.GridLoops
import A17.Lib.GridWindow
import Mathlib.Algebra.Order.Floor.Ring
import Mathlib.Data.Rat.Floor

/-!
# The ring buffer

A cube of voxels that moves over the grid of the world. A coordinate is masked to a place in the buffer, so the
buffer never moves: `moveVolume` shifts the offset and clears the slice that comes in. What reads give is what a
volume holds that keeps its voxels as it moves (`Represents`, `at_run`).
-/

namespace A17.Ewok
open GridLoops GridWindow

abbrev Vector3i := Fin 3 → Int

/-- `_N`. -/
def N (POW : Nat) : Nat := 2 ^ POW

theorem N_pos (POW : Nat) : 0 < N POW := Nat.two_pow_pos POW

theorem cast_N_pos (POW : Nat) : 0 < (N POW : Int) := Nat.cast_pos.2 (N_pos POW)

/-- `_MASK`. -/
def mask (POW : Nat) : Int := N POW - 1

/-- `_NEG_MASK`. -/
def negMask (POW : Nat) : Int := Int.lnot (mask POW)

theorem mask_eq (POW : Nat) : mask POW = 2 ^ POW - 1 := by simp [mask, N]

/-- The place of a coordinate in the buffer. -/
def index (POW : Nat) (coord : Vector3i) : Nat :=
  let idx := fun i => (Int.land (coord i) (mask POW)).toNat
  N POW * N POW * idx 0 + N POW * idx 1 + idx 2

section
variable {POW : Nat} {coord c d : Vector3i}

theorem index_eq (coord : Vector3i) : index POW coord =
    N POW * N POW * (coord 0 % N POW).toNat + N POW * (coord 1 % N POW).toNat + (coord 2 % N POW).toNat := by
  have hN : (N POW : Int) = 2 ^ POW := by simp [N]
  simp only [index, mask_eq, land_mask, hN]

theorem toNat_emod_lt (k : Int) : (k % N POW).toNat < N POW := by
  have := Int.emod_lt_of_pos k (cast_N_pos POW)
  have := Int.emod_nonneg k (cast_N_pos POW).ne'
  omega

theorem digits_lt {n a b e : Nat} (ha : a < n) (hb : b < n) (he : e < n) : n * n * a + n * b + e < n * n * n := by
  have h1 : n * (b + 1) ≤ n * n := Nat.mul_le_mul_left n hb
  have h2 : n * n * (a + 1) ≤ n * n * n := Nat.mul_le_mul_left (n * n) ha
  rw [Nat.mul_add] at h1 h2
  omega

theorem digits_inj {n a b e a' b' e' : Nat} (hb : b < n) (he : e < n) (hb' : b' < n) (he' : e' < n)
    (h : n * n * a + n * b + e = n * n * a' + n * b' + e') : a = a' ∧ b = b' ∧ e = e' := by
  have hn : 0 < n := by omega
  rw [Nat.mul_assoc, Nat.mul_assoc, ← Nat.mul_add, ← Nat.mul_add] at h
  have hlow : e = e' := by
    have := congrArg (· % n) h
    simpa [Nat.mul_add_mod, Nat.mod_eq_of_lt he, Nat.mod_eq_of_lt he'] using this
  have hhigh : n * a + b = n * a' + b' := Nat.eq_of_mul_eq_mul_left hn (by omega)
  have hmid : b = b' := by
    have := congrArg (· % n) hhigh
    simpa [Nat.mul_add_mod, Nat.mod_eq_of_lt hb, Nat.mod_eq_of_lt hb'] using this
  exact ⟨Nat.eq_of_mul_eq_mul_left hn (by omega), hmid, hlow⟩

theorem index_lt (coord : Vector3i) : index POW coord < N POW * N POW * N POW := by
  rw [index_eq]
  exact digits_lt (toNat_emod_lt _) (toNat_emod_lt _) (toNat_emod_lt _)

/-- Coordinates share a place of the buffer exactly when they are congruent on each axis. -/
theorem index_eq_iff : index POW c = index POW d ↔ Congr (N POW) c d := by
  have heq : ∀ k l : Int, (k % N POW).toNat = (l % N POW).toNat → k % N POW = l % N POW := by
    intro k l h
    have := Int.emod_nonneg k (cast_N_pos POW).ne'
    have := Int.emod_nonneg l (cast_N_pos POW).ne'
    omega
  rw [index_eq, index_eq]
  constructor
  · intro h
    obtain ⟨h0, h1, h2⟩ := digits_inj (toNat_emod_lt _) (toNat_emod_lt _) (toNat_emod_lt _) (toNat_emod_lt _) h
    intro i
    fin_cases i
    exacts [heq _ _ h0, heq _ _ h1, heq _ _ h2]
  · intro h
    rw [h 0, h 1, h 2]

end

structure RingBufferBase (POW : Nat) (α K : Type) where
  resolution : K
  emptyElement : α
  offset : Vector3i
  buffer : Vector α (N POW * N POW * N POW)

namespace RingBufferBase
variable {POW : Nat} {α K : Type}

def new (POW : Nat) (resolution : K) (emptyElement : α) : RingBufferBase POW α K where
  resolution := resolution
  emptyElement := emptyElement
  offset := fun _ => -((N POW / 2 : Nat) : Int)
  buffer := Vector.replicate _ emptyElement

def setEmptyElement (b : RingBufferBase POW α K) (e : α) : RingBufferBase POW α K := { b with emptyElement := e }

def setOffset (b : RingBufferBase POW α K) (offset : Vector3i) : RingBufferBase POW α K := { b with offset := offset }

section
variable [Field K]

def getIdx [LinearOrder K] [FloorRing K] (b : RingBufferBase POW α K) (point : Fin 3 → K) : Vector3i :=
  fun i => ⌊point i / b.resolution⌋

def getPoint (b : RingBufferBase POW α K) (idx : Vector3i) : Fin 3 → K := fun i => (idx i + 0.5) * b.resolution

end

/-- `at`, read. -/
def at_ (b : RingBufferBase POW α K) (coord : Vector3i) : α :=
  have h : index POW coord < N POW * N POW * N POW := index_lt coord
  b.buffer[index POW coord]

/-- `at`, assigned to. -/
def setAt (b : RingBufferBase POW α K) (coord : Vector3i) (data : α) : RingBufferBase POW α K :=
  { b with buffer := b.buffer.set (index POW coord) data (index_lt coord) }

/-- The loops of the slices. -/
def setSlice (b : RingBufferBase POW α K) (place : Nat → Nat → Vector3i) (data : α) : RingBufferBase POW α K :=
  (List.range (N POW)).foldl (fun b i => (List.range (N POW)).foldl (fun b j => b.setAt (place i j) data) b) b

def setXSlice (b : RingBufferBase POW α K) (sliceIdx : Int) (data : α) : RingBufferBase POW α K :=
  b.setSlice (fun i j => ![sliceIdx, i, j]) data

def setYSlice (b : RingBufferBase POW α K) (sliceIdx : Int) (data : α) : RingBufferBase POW α K :=
  b.setSlice (fun i j => ![i, sliceIdx, j]) data

def setZSlice (b : RingBufferBase POW α K) (sliceIdx : Int) (data : α) : RingBufferBase POW α K :=
  b.setSlice (fun i j => ![i, j, sliceIdx]) data

/-- The `switch` of `moveVolume`. -/
def clearSlice (b : RingBufferBase POW α K) (axis : Fin 3) (slice : Int) : RingBufferBase POW α K :=
  match axis with
  | 0 => b.setXSlice slice b.emptyElement
  | 1 => b.setYSlice slice b.emptyElement
  | 2 => b.setZSlice slice b.emptyElement

/-- The round of `moveVolume` for one axis. -/
def moveAxis (direction : Vector3i) (b : RingBufferBase POW α K) (axis : Fin 3) : RingBufferBase POW α K :=
  if direction axis ≠ 0 then
    if direction axis > 0 then
      let b := { b with offset := Function.update b.offset axis (b.offset axis + 1) }
      b.clearSlice axis (b.offset axis + N POW - 1)
    else
      let b := { b with offset := Function.update b.offset axis (b.offset axis - 1) }
      b.clearSlice axis (b.offset axis)
  else b

def moveVolume (b : RingBufferBase POW α K) (direction : Vector3i) : RingBufferBase POW α K :=
  (List.finRange 3).foldl (moveAxis direction) b

def insideVolume (b : RingBufferBase POW α K) (coord : Vector3i) : Bool :=
  (List.finRange 3).all fun i => Int.land (coord i - b.offset i) (negMask POW) == 0

def getVolumeCenter (b : RingBufferBase POW α K) : Vector3i := fun i => b.offset i + (N POW / 2 : Nat)

/-- The cloud and the offset point. -/
def getCloudHelper [Field K] (b : RingBufferBase POW α K) (func : α → Bool) : List (Fin 3 → K) × (Fin 3 → K) :=
  let coords := (box (fun _ => 0) fun _ => N POW - 1).filter fun coord => func (b.at_ (coord + b.offset))
  (coords.map fun coord i => coord i * b.resolution, b.getPoint b.offset)

/-! ### Reads after writes -/

variable {b : RingBufferBase POW α K} {c d : Vector3i} {x : α}

theorem at_congr (h : Congr (N POW) c d) : b.at_ c = b.at_ d := by
  unfold at_
  simp only [index_eq_iff.2 h]

theorem at_setAt (b : RingBufferBase POW α K) (c d : Vector3i) (x : α) :
    (b.setAt c x).at_ d = if Congr (N POW) c d then x else b.at_ d := by
  unfold at_ setAt
  simp only [Vector.getElem_set, index_eq_iff]

@[simp] theorem offset_setAt : (b.setAt c x).offset = b.offset := rfl
@[simp] theorem emptyElement_setAt : (b.setAt c x).emptyElement = b.emptyElement := rfl
@[simp] theorem resolution_setAt : (b.setAt c x).resolution = b.resolution := rfl

theorem at_foldl_setAt (cs : List Vector3i) (x : α) (b : RingBufferBase POW α K) (d : Vector3i) :
    (cs.foldl (fun b c => b.setAt c x) b).at_ d = if ∃ c ∈ cs, Congr (N POW) c d then x else b.at_ d := by
  induction cs generalizing b with
  | nil => simp
  | cons c cs ih =>
    rw [List.foldl_cons, ih, at_setAt]
    by_cases hcs : ∃ c ∈ cs, Congr (N POW) c d
    · rw [if_pos hcs, if_pos]
      obtain ⟨c', hc', hcongr⟩ := hcs
      exact ⟨c', List.mem_cons_of_mem _ hc', hcongr⟩
    · rw [if_neg hcs]
      have hiff : (∃ c' ∈ c :: cs, Congr (N POW) c' d) ↔ Congr (N POW) c d := by
        constructor
        · rintro ⟨c', hc', hcongr⟩
          rcases List.mem_cons.1 hc' with rfl | hc'
          · exact hcongr
          · exact absurd ⟨c', hc', hcongr⟩ hcs
        · intro hcongr
          exact ⟨c, List.mem_cons_self, hcongr⟩
      simp only [hiff]

theorem at_setSlice {place : Nat → Nat → Vector3i} (axis : Fin 3) {slice : Int}
    (hslice : ∀ i j, place i j axis = slice)
    (hplace : ∀ d : Vector3i, ∃ i j, i < N POW ∧ j < N POW ∧ ∀ k, k ≠ axis → place i j k = d k % N POW)
    (b : RingBufferBase POW α K) (x : α) (d : Vector3i) :
    (b.setSlice place x).at_ d = if d axis % N POW = slice % N POW then x else b.at_ d := by
  have hloops : b.setSlice place x =
      ((List.range (N POW)).flatMap fun i => (List.range (N POW)).map (place i)).foldl (fun b c => b.setAt c x) b := by
    rw [List.foldl_flatMap]
    simp only [List.foldl_map]
    rfl
  have hiff : (∃ c ∈ (List.range (N POW)).flatMap fun i => (List.range (N POW)).map (place i), Congr (N POW) c d) ↔
      d axis % N POW = slice % N POW := by
    simp only [List.mem_flatMap, List.mem_map, List.mem_range]
    constructor
    · rintro ⟨c, ⟨i, -, j, -, rfl⟩, hcongr⟩
      rw [← hcongr axis, hslice]
    · intro h
      obtain ⟨i, j, hi, hj, hk⟩ := hplace d
      refine ⟨_, ⟨i, hi, j, hj, rfl⟩, fun k => ?_⟩
      by_cases hkaxis : k = axis
      · rw [hkaxis, hslice, h]
      · rw [hk k hkaxis, Int.emod_emod_of_dvd _ (dvd_refl _)]
  rw [hloops, at_foldl_setAt]
  simp only [hiff]

theorem exists_cast_eq_emod (POW : Nat) (k : Int) : ∃ i, i < N POW ∧ (i : Int) = k % N POW :=
  ⟨(k % N POW).toNat, toNat_emod_lt k, Int.toNat_of_nonneg (Int.emod_nonneg k (cast_N_pos POW).ne')⟩

theorem at_clearSlice (b : RingBufferBase POW α K) (axis : Fin 3) (slice : Int) (d : Vector3i) :
    (b.clearSlice axis slice).at_ d = if d axis % N POW = slice % N POW then b.emptyElement else b.at_ d := by
  fin_cases axis
  · refine at_setSlice 0 (fun _ _ => rfl) (fun d => ?_) b _ d
    obtain ⟨i, hi, h1⟩ := exists_cast_eq_emod POW (d 1)
    obtain ⟨j, hj, h2⟩ := exists_cast_eq_emod POW (d 2)
    refine ⟨i, j, hi, hj, fun k hk => ?_⟩
    fin_cases k
    exacts [absurd rfl hk, h1, h2]
  · refine at_setSlice 1 (fun _ _ => rfl) (fun d => ?_) b _ d
    obtain ⟨i, hi, h0⟩ := exists_cast_eq_emod POW (d 0)
    obtain ⟨j, hj, h2⟩ := exists_cast_eq_emod POW (d 2)
    refine ⟨i, j, hi, hj, fun k hk => ?_⟩
    fin_cases k
    exacts [h0, absurd rfl hk, h2]
  · refine at_setSlice 2 (fun _ _ => rfl) (fun d => ?_) b _ d
    obtain ⟨i, hi, h0⟩ := exists_cast_eq_emod POW (d 0)
    obtain ⟨j, hj, h1⟩ := exists_cast_eq_emod POW (d 1)
    refine ⟨i, j, hi, hj, fun k hk => ?_⟩
    fin_cases k
    exacts [h0, h1, absurd rfl hk]

theorem foldl_setAt_eq {β : Type} (l : List β) (f : β → Vector3i) (x : α) (b : RingBufferBase POW α K) :
    ∃ buffer, l.foldl (fun b k => b.setAt (f k) x) b = { b with buffer := buffer } := by
  induction l generalizing b with
  | nil => exact ⟨b.buffer, rfl⟩
  | cons k l ih => exact ih (b.setAt (f k) x)

/-- A slice changes the buffer only. -/
theorem clearSlice_eq (b : RingBufferBase POW α K) (axis : Fin 3) (slice : Int) :
    ∃ buffer, b.clearSlice axis slice = { b with buffer := buffer } := by
  have hslice : ∀ (place : Nat → Nat → Vector3i) (x : α),
      ∃ buffer, b.setSlice place x = { b with buffer := buffer } := by
    intro place x
    refine Run.invariant (I := fun b' : RingBufferBase POW α K => ∃ buffer, b' = { b with buffer := buffer }) ?_
      ⟨b.buffer, rfl⟩
    rintro - i ⟨buffer, rfl⟩
    exact foldl_setAt_eq _ (place i) x { b with buffer := buffer }
  fin_cases axis
  exacts [hslice _ _, hslice _ _, hslice _ _]

/-- The coordinate of the slice that comes in on an axis. -/
def entering (direction : Vector3i) (b : RingBufferBase POW α K) (axis : Fin 3) : Int :=
  if direction axis > 0 then b.offset axis + N POW else b.offset axis - 1

theorem moveAxis_eq (direction : Vector3i) (b : RingBufferBase POW α K) (axis : Fin 3) :
    ∃ buffer, moveAxis direction b axis =
      { b with buffer := buffer,
               offset := Function.update b.offset axis (b.offset axis + (direction axis).sign) } := by
  unfold moveAxis
  split
  · split
    · next hpos =>
      rw [Int.sign_eq_one_of_pos hpos]
      exact clearSlice_eq _ axis _
    · next hne hpos =>
      rw [Int.sign_eq_neg_one_of_neg (by omega)]
      exact clearSlice_eq _ axis _
  · next hzero =>
    have hzero : direction axis = 0 := not_not.1 hzero
    refine ⟨b.buffer, ?_⟩
    rw [hzero, Int.sign_zero, add_zero, Function.update_eq_self]

theorem at_moveAxis (direction : Vector3i) (b : RingBufferBase POW α K) (axis : Fin 3) (d : Vector3i) :
    (moveAxis direction b axis).at_ d =
      if direction axis ≠ 0 ∧ d axis % N POW = entering direction b axis % N POW then b.emptyElement
      else b.at_ d := by
  unfold moveAxis entering
  by_cases hne : direction axis ≠ 0
  · rw [if_pos hne]
    split
    · rw [at_clearSlice]
      simp only [Function.update_self, hne, ne_eq, not_false_eq_true, true_and]
      have hslice : b.offset axis + 1 + N POW - 1 = b.offset axis + (N POW : Int) := by omega
      rw [hslice]
      rfl
    · rw [at_clearSlice]
      simp only [Function.update_self, hne, ne_eq, not_false_eq_true, true_and]
      rfl
  · simp only [hne, if_false, false_and]

theorem offset_moveVolume (b : RingBufferBase POW α K) (direction : Vector3i) :
    (b.moveVolume direction).offset = fun i => b.offset i + (direction i).sign := by
  obtain ⟨b0, h0⟩ := moveAxis_eq direction b 0
  obtain ⟨b1, h1⟩ := moveAxis_eq direction (moveAxis direction b 0) 1
  obtain ⟨b2, h2⟩ := moveAxis_eq direction (moveAxis direction (moveAxis direction b 0) 1) 2
  show (moveAxis direction (moveAxis direction (moveAxis direction b 0) 1) 2).offset = _
  rw [h2, h1, h0]
  funext i
  fin_cases i <;> rfl

/-- Of the new range of an axis, the slice that comes in is what was not in the old one. -/
theorem entering_iff {direction : Vector3i} {axis : Fin 3} {k : Int}
    (hk : b.offset axis + (direction axis).sign ≤ k ∧ k < b.offset axis + (direction axis).sign + N POW) :
    (direction axis ≠ 0 ∧ k % N POW = entering direction b axis % N POW) ↔
      ¬ (b.offset axis ≤ k ∧ k < b.offset axis + N POW) := by
  have hN := cast_N_pos POW
  have hsame : ∀ e, (b.offset axis + (direction axis).sign ≤ e ∧
      e < b.offset axis + (direction axis).sign + N POW) → (k % N POW = e % N POW ↔ k = e) := by
    intro e he
    exact ⟨fun h => eq_of_emod_eq hN h hk he, fun h => by rw [h]⟩
  unfold entering
  rcases lt_trichotomy (direction axis) 0 with hneg | hzero | hpos
  · rw [if_neg (by omega), hsame _ (by rw [Int.sign_eq_neg_one_of_neg hneg]; omega)]
    rw [Int.sign_eq_neg_one_of_neg hneg] at hk
    constructor
    · rintro ⟨-, rfl⟩ ⟨hle, -⟩
      omega
    · intro h
      exact ⟨hneg.ne, by omega⟩
  · rw [hzero, Int.sign_zero] at hk
    simp only [hzero, ne_eq, not_true_eq_false, false_and, false_iff, not_not]
    omega
  · rw [if_pos hpos, hsame _ (by rw [Int.sign_eq_one_of_pos hpos]; omega)]
    rw [Int.sign_eq_one_of_pos hpos] at hk
    constructor
    · rintro ⟨-, rfl⟩ ⟨-, hlt⟩
      omega
    · intro h
      exact ⟨hpos.ne', by omega⟩

theorem emptyElement_moveVolume (b : RingBufferBase POW α K) (direction : Vector3i) :
    (b.moveVolume direction).emptyElement = b.emptyElement := by
  obtain ⟨b0, h0⟩ := moveAxis_eq direction b 0
  obtain ⟨b1, h1⟩ := moveAxis_eq direction (moveAxis direction b 0) 1
  obtain ⟨b2, h2⟩ := moveAxis_eq direction (moveAxis direction (moveAxis direction b 0) 1) 2
  show (moveAxis direction (moveAxis direction (moveAxis direction b 0) 1) 2).emptyElement = _
  rw [h2, h1, h0]

/-- After a move a voxel of the volume holds what it held before if it was in the volume then. -/
theorem at_moveVolume (b : RingBufferBase POW α K) {direction : Vector3i}
    (hc : Inside (N POW) (b.moveVolume direction).offset c) :
    (b.moveVolume direction).at_ c = if Inside (N POW) b.offset c then b.at_ c else b.emptyElement := by
  obtain ⟨b0, h0⟩ := moveAxis_eq direction b 0
  obtain ⟨b1, h1⟩ := moveAxis_eq direction (moveAxis direction b 0) 1
  rw [offset_moveVolume] at hc
  have he1 : entering direction (moveAxis direction b 0) 1 = entering direction b 1 := by rw [h0]; rfl
  have he2 : entering direction (moveAxis direction (moveAxis direction b 0) 1) 2 = entering direction b 2 := by
    rw [h1, h0]; rfl
  show (moveAxis direction (moveAxis direction (moveAxis direction b 0) 1) 2).at_ c = _
  rw [at_moveAxis, at_moveAxis, at_moveAxis, he1, he2]
  simp only [entering_iff (hc 0), entering_iff (hc 1), entering_iff (hc 2)]
  have hempty1 : (moveAxis direction b 0).emptyElement = b.emptyElement := by rw [h0]
  have hempty2 : (moveAxis direction (moveAxis direction b 0) 1).emptyElement = b.emptyElement := by rw [h1, h0]
  rw [hempty1, hempty2]
  by_cases hin : Inside (N POW) b.offset c
  · rw [if_pos hin, if_neg (not_not.2 (hin 2)), if_neg (not_not.2 (hin 1)), if_neg (not_not.2 (hin 0))]
  · rw [if_neg hin]
    split_ifs with h2 h1 h0
    · refine absurd (fun i => ?_) hin
      fin_cases i
      exacts [h0, h1, h2]
    · rfl
    · rfl
    · rfl

theorem insideVolume_iff : b.insideVolume c = true ↔ Inside (N POW) b.offset c := by
  unfold insideVolume Inside
  simp only [List.all_eq_true, List.mem_finRange, true_implies, beq_iff_eq, negMask, mask_eq,
    land_lnot_mask_eq_zero]
  refine forall_congr' fun i => ?_
  have hN : (N POW : Int) = 2 ^ POW := by simp [N]
  rw [hN]
  omega

/-- Moved by the offset point, the points of the cloud are the centres of the voxels that `func` holds of. -/
theorem mem_getCloudHelper [Field K] {func : α → Bool} {p : Fin 3 → K} :
    p ∈ (b.getCloudHelper func).1.map (fun q i => (b.getCloudHelper func).2 i + q i) ↔
      ∃ c, b.insideVolume c = true ∧ func (b.at_ c) = true ∧ b.getPoint c = p := by
  have hcentre : ∀ coord : Vector3i,
      (fun i => b.getPoint b.offset i + coord i * b.resolution) = b.getPoint (coord + b.offset) := by
    intro coord
    funext i
    unfold getPoint
    rw [Pi.add_apply, Int.cast_add]
    ring
  simp only [getCloudHelper, List.map_map, List.mem_map, List.mem_filter, mem_box, Function.comp_apply, hcentre,
    insideVolume_iff]
  constructor
  · rintro ⟨coord, ⟨hbox, hfunc⟩, rfl⟩
    refine ⟨coord + b.offset, fun i => ?_, hfunc, rfl⟩
    have := hbox i
    simp only [Pi.add_apply]
    omega
  · rintro ⟨c, hin, hfunc, rfl⟩
    refine ⟨c - b.offset, ⟨fun i => ?_, by rwa [sub_add_cancel]⟩, by rw [sub_add_cancel]⟩
    have := hin i
    simp only [Pi.sub_apply]
    omega

/-! ### Runs -/

/-- Every place of the buffer holds what the volume holds at the point of its box that falls on it. -/
structure Represents (b : RingBufferBase POW α K) (v : Volume (Fin 3) α) : Prop where
  offset_eq : b.offset = v.offset
  at_eq : ∀ c, b.at_ c = v.get (N POW) c

inductive Op (α : Type)
  | setEmptyElement (e : α)
  | setOffset (offset : Vector3i)
  | moveVolume (direction : Vector3i)
  | setAt (coord : Vector3i) (data : α)

def step (b : RingBufferBase POW α K) : Op α → RingBufferBase POW α K
  | .setEmptyElement e => b.setEmptyElement e
  | .setOffset offset => b.setOffset offset
  | .moveVolume direction => b.moveVolume direction
  | .setAt coord data => b.setAt coord data

/-- What an operation does to the volume, and to the element that the next voxels to come in will hold. -/
noncomputable def volumeStep (POW : Nat) (v : Volume (Fin 3) α × α) : Op α → Volume (Fin 3) α × α
  | .setEmptyElement e => (v.1, e)
  | .setOffset offset => (v.1.relabel (N POW) offset, v.2)
  | .moveVolume direction => (v.1.move (N POW) (fun i => v.1.offset i + (direction i).sign) v.2, v.2)
  | .setAt coord data => (v.1.set (N POW) coord data, v.2)

theorem Represents.moveVolume {v : Volume (Fin 3) α} (h : b.Represents v) (direction : Vector3i) :
    (b.moveVolume direction).Represents
      (v.move (N POW) (fun i => v.offset i + (direction i).sign) b.emptyElement) := by
  have hN := cast_N_pos POW
  have hoffset : (b.moveVolume direction).offset = fun i => v.offset i + (direction i).sign := by
    rw [offset_moveVolume, h.offset_eq]
  refine ⟨hoffset, fun c => ?_⟩
  have hfit : Inside (N POW) (b.moveVolume direction).offset (fitBox (N POW) (b.moveVolume direction).offset c) :=
    inside_fitBox hN
  rw [← at_congr congr_fitBox, at_moveVolume b hfit, h.offset_eq, hoffset, Volume.get_move]
  split
  · next hin => rw [h.at_eq, Volume.get_of_inside hN hin]
  · rfl

theorem represents_step {v : Volume (Fin 3) α} (h : b.Represents v) (op : Op α) :
    (b.step op).Represents (volumeStep POW (v, b.emptyElement) op).1 ∧
      (b.step op).emptyElement = (volumeStep POW (v, b.emptyElement) op).2 := by
  cases op with
  | setEmptyElement e => exact ⟨⟨h.offset_eq, h.at_eq⟩, rfl⟩
  | setOffset offset => exact ⟨⟨rfl, fun c => (h.at_eq c).trans (Volume.get_relabel v offset c).symm⟩, rfl⟩
  | moveVolume direction => exact ⟨h.moveVolume direction, emptyElement_moveVolume b direction⟩
  | setAt coord data =>
    refine ⟨⟨h.offset_eq, fun c => ?_⟩, rfl⟩
    show (b.setAt coord data).at_ c = (v.set (N POW) coord data).get (N POW) c
    rw [at_setAt, Volume.get_set, h.at_eq]

theorem represents_run {v : Volume (Fin 3) α} (h : b.Represents v) (ops : List (Op α)) :
    (ops.foldl step b).Represents (ops.foldl (volumeStep POW) (v, b.emptyElement)).1 := by
  have hboth : (ops.foldl step b).Represents (ops.foldl (volumeStep POW) (v, b.emptyElement)).1 ∧
      (ops.foldl step b).emptyElement = (ops.foldl (volumeStep POW) (v, b.emptyElement)).2 := by
    induction ops using List.reverseRecOn with
    | nil => exact ⟨h, rfl⟩
    | append_singleton ops op ih =>
      rw [List.foldl_concat, List.foldl_concat]
      have hstep := represents_step ih.1 op
      rwa [ih.2] at hstep
  exact hboth.1

theorem at_new (POW : Nat) (resolution : K) (e : α) (c : Vector3i) : (new POW resolution e).at_ c = e := by
  simp [new, at_]

/-- The volume of a new buffer, and its empty element. -/
def newVolume (POW : Nat) (e : α) : Volume (Fin 3) α × α := (⟨fun _ => -((N POW / 2 : Nat) : Int), fun _ => e⟩, e)

theorem run_represents (POW : Nat) (resolution : K) (e : α) (ops : List (Op α)) :
    (ops.foldl step (new POW resolution e)).Represents (ops.foldl (volumeStep POW) (newVolume POW e)).1 :=
  represents_run ⟨rfl, at_new POW resolution e⟩ ops

/-- Whatever is done with a buffer, it reads as the volume does, and it finds the box where the volume has it. -/
theorem at_run (POW : Nat) (resolution : K) (e : α) (ops : List (Op α)) (c : Vector3i) :
    let b := ops.foldl step (new POW resolution e)
    let v := (ops.foldl (volumeStep POW) (newVolume POW e)).1
    b.at_ c = v.content (fitBox (N POW) v.offset c) ∧ (b.insideVolume c = true ↔ fitBox (N POW) v.offset c = c) := by
  intro b v
  have h : b.Represents v := run_represents POW resolution e ops
  refine ⟨h.at_eq c, ?_⟩
  rw [insideVolume_iff, h.offset_eq, fitBox_eq_self_iff (cast_N_pos POW)]

end RingBufferBase
end A17.Ewok
