import A17.Ewok.RaycastRingBuffer

/-!
# Free rays

`insertFreeBresenham3D` marks the voxels of a digital line: the point of round `i` is `linePoint`, on each axis the
nearest to the straight line between the two voxels. The error variables are those of `DigitalLine`
(`Walk.After`).
-/

namespace A17.Ewok
open GridLoops GridWindow DigitalLine
variable {POW : Nat} {K : Type}

@[simp] theorem offset_orFlag (flags : RingBufferBase POW Flag K) (c : Vector3i) (f : Flag) :
    (orFlag flags c f).offset = flags.offset := rfl

theorem at_orFlag (flags : RingBufferBase POW Flag K) (c d : Vector3i) (f : Flag) :
    (orFlag flags c f).at_ d = if Congr (N POW) c d then flags.at_ d ||| f else flags.at_ d := by
  unfold orFlag
  rw [RingBufferBase.at_setAt]
  split
  · next h => rw [RingBufferBase.at_congr h]
  · rfl

/-- The flags once all of `path` is marked. -/
def orFlags (flags : RingBufferBase POW Flag K) (path : List Vector3i) (f : Flag) : RingBufferBase POW Flag K :=
  path.foldl (fun flags c => orFlag flags c f) flags

theorem orFlags_concat (flags : RingBufferBase POW Flag K) (path : List Vector3i) (c : Vector3i) (f : Flag) :
    orFlags flags (path ++ [c]) f = orFlag (orFlags flags path f) c f :=
  List.foldl_concat ..

theorem at_orFlags (flags : RingBufferBase POW Flag K) (path : List Vector3i) (f : Flag) (d : Vector3i) :
    (orFlags flags path f).at_ d =
      if ∃ c ∈ path, Congr (N POW) c d then flags.at_ d ||| f else flags.at_ d := by
  induction path using List.reverseRecOn with
  | nil => simp [orFlags]
  | append_singleton path c ih =>
    have hiff : (∃ e ∈ path ++ [c], Congr (N POW) e d) ↔ (∃ e ∈ path, Congr (N POW) e d) ∨ Congr (N POW) c d := by
      simp only [List.mem_append, List.mem_singleton, or_and_right, exists_or, exists_eq_left]
    rw [orFlags_concat, at_orFlag, ih]
    simp only [hiff]
    by_cases hc : Congr (N POW) c d <;> by_cases hpath : ∃ e ∈ path, Congr (N POW) e d <;>
      simp [hc, hpath, BitVec.or_assoc]

/-- Where the walk from `point` is after `i` rounds. -/
def walkPoint (point inc len : Vector3i) (l i : Int) : Vector3i := fun j => point j + inc j * count l (len j) i

/-- What holds of the loop's variables after `k` rounds. -/
structure Walk.After (flags : RingBufferBase POW Flag K) (point inc len : Vector3i) (a b c : Fin 3) (k : Nat)
    (w : Walk POW K) : Prop where
  point_eq : w.point = walkPoint point inc len (len a) k
  err1_eq : w.err1 = error (len a) (len b) k (count (len a) (len b) k)
  err2_eq : w.err2 = error (len a) (len c) k (count (len a) (len c) k)
  flagBuffer_eq : w.flagBuffer =
    orFlags flags ((List.range k).map fun i : Nat => walkPoint point inc len (len a) i) Flag.free

section
variable {flags : RingBufferBase POW Flag K} {point inc len : Vector3i} {a b c : Fin 3}

theorem walkStep_point (inc d2 : Vector3i) (w : Walk POW K) (hab : a ≠ b) (hac : a ≠ c) (hbc : b ≠ c) :
    (walkStep inc d2 a b c w).point a = w.point a + inc a ∧
    (walkStep inc d2 a b c w).point b = w.point b + (if w.err1 > 0 then inc b else 0) ∧
    (walkStep inc d2 a b c w).point c = w.point c + (if w.err2 > 0 then inc c else 0) := by
  unfold walkStep
  by_cases h1 : w.err1 > 0 <;> by_cases h2 : w.err2 > 0 <;>
    simp [h1, h2, hab, hac, hbc, hab.symm, hac.symm, hbc.symm]

theorem walkStep_err1 (d2 : Vector3i) (w : Walk POW K) :
    (walkStep inc d2 a b c w).err1 = (if w.err1 > 0 then w.err1 - d2 a else w.err1) + d2 b := by
  unfold walkStep
  by_cases h1 : w.err1 > 0 <;> simp [h1]

theorem walkStep_err2 (d2 : Vector3i) (w : Walk POW K) :
    (walkStep inc d2 a b c w).err2 = (if w.err2 > 0 then w.err2 - d2 a else w.err2) + d2 c := by
  unfold walkStep
  by_cases h1 : w.err1 > 0 <;> by_cases h2 : w.err2 > 0 <;> simp [h1, h2]

/-- One round of the error of an axis. -/
theorem error_round {l m : Int} (hl : 0 < l) (hm : 0 ≤ m ∧ m ≤ l) (k : Int) :
    (if error l m k (count l m k) > 0 then error l m k (count l m k) - 2 * l else error l m k (count l m k)) + 2 * m =
      error l m (k + 1) (count l m (k + 1)) := by
  rw [count_succ hl hm.1 hm.2, error_succ]
  split
  · rw [error_count_succ]
  · rfl

theorem Walk.After.step {k : Nat} {w : Walk POW K} (h : w.After flags point inc len a b c k) (hab : a ≠ b)
    (hac : a ≠ c) (hbc : b ≠ c) (hb : 0 ≤ len b ∧ len b ≤ len a) (hc : 0 ≤ len c ∧ len c ≤ len a)
    (hk : k < len a) :
    (walkStep inc (fun i => len i <<< (1 : Nat)) a b c w).After flags point inc len a b c (k + 1) := by
  have hl : 0 < len a := by omega
  have hd2 : ∀ i, len i <<< (1 : Nat) = 2 * len i := by
    intro i
    rw [Int.shiftLeft_eq]
    omega
  have haxis : ∀ j : Fin 3, j = a ∨ j = b ∨ j = c := by omega
  obtain ⟨hpoint, herr1, herr2, hflags⟩ := h
  obtain ⟨ha', hb', hc'⟩ := walkStep_point inc (fun i => len i <<< (1 : Nat)) w hab hac hbc
  refine ⟨?_, ?_, ?_, ?_⟩
  · funext j
    push_cast
    rcases haxis j with rfl | rfl | rfl
    · rw [ha', hpoint, walkPoint, walkPoint, count_main hl, count_main hl]
      ring
    · rw [hb', hpoint, herr1, walkPoint, walkPoint, count_succ hl hb.1 hb.2]
      split <;> ring
    · rw [hc', hpoint, herr2, walkPoint, walkPoint, count_succ hl hc.1 hc.2]
      split <;> ring
  · rw [walkStep_err1, hd2, hd2, herr1]
    exact_mod_cast error_round hl hb k
  · rw [walkStep_err2, hd2, hd2, herr2]
    exact_mod_cast error_round hl hc k
  · rw [List.range_succ, List.map_append, List.map_singleton, orFlags_concat, ← hflags, ← hpoint]
    rfl

theorem walk_after (hab : a ≠ b) (hac : a ≠ c) (hbc : b ≠ c) (hb : 0 ≤ len b ∧ len b ≤ len a)
    (hc : 0 ≤ len c ∧ len c ≤ len a) :
    (walk flags point inc len a b c).After flags point inc len a b c (len a).toNat := by
  have ha : 0 ≤ len a := hb.1.trans hb.2
  have hd2 : ∀ i, len i <<< (1 : Nat) = 2 * len i := by
    intro i
    rw [Int.shiftLeft_eq]
    omega
  unfold walk
  refine (?_ : ∀ n : Nat, (n : Int) ≤ len a → Walk.After flags point inc len a b c n
    ((List.range n).foldl (fun w _ => walkStep inc (fun i => len i <<< (1 : Nat)) a b c w)
      ⟨flags, point, len b <<< (1 : Nat) - len a, len c <<< (1 : Nat) - len a⟩)) _ (by omega)
  intro n
  induction n with
  | zero =>
    intro _
    refine ⟨?_, ?_, ?_, rfl⟩
    · funext j
      simp [walkPoint, count_zero ha]
    · simp [hd2, error, count_zero ha]
    · simp [hd2, error, count_zero ha]
  | succ n ih =>
    intro hn
    push_cast at hn
    rw [List.range_succ, List.foldl_concat]
    exact (ih (by omega)).step hab hac hbc hb hc (by omega)

end

/-! ### The line of a ray -/

/-- The number of steps of the line between two voxels. -/
def rayLength (pointIdx originIdx : Vector3i) : Int :=
  max |originIdx 0 - pointIdx 0| (max |originIdx 1 - pointIdx 1| |originIdx 2 - pointIdx 2|)

def linePoint (pointIdx originIdx : Vector3i) (i : Int) : Vector3i :=
  walkPoint pointIdx (fun j => if originIdx j - pointIdx j < 0 then -1 else 1)
    (fun j => |originIdx j - pointIdx j|) (rayLength pointIdx originIdx) i

/-- The voxels of the line, both ends included. -/
def line (pointIdx originIdx : Vector3i) : List Vector3i :=
  (List.range ((rayLength pointIdx originIdx).toNat + 1)).map fun i : Nat => linePoint pointIdx originIdx i

variable {flags : RingBufferBase POW Flag K} {p o c : Vector3i}

theorem abs_le_rayLength (p o : Vector3i) (j : Fin 3) : |o j - p j| ≤ rayLength p o := by
  unfold rayLength
  fin_cases j <;> simp

theorem rayLength_nonneg (p o : Vector3i) : 0 ≤ rayLength p o := (abs_nonneg _).trans (abs_le_rayLength p o 0)

/-- The main axis. -/
theorem exists_eq_rayLength (p o : Vector3i) : ∃ a, rayLength p o = |o a - p a| := by
  unfold rayLength
  rcases max_choice |o 0 - p 0| (max |o 1 - p 1| |o 2 - p 2|) with h | h
  · exact ⟨0, h⟩
  · rcases max_choice |o 1 - p 1| |o 2 - p 2| with h' | h'
    · exact ⟨1, h.trans h'⟩
    · exact ⟨2, h.trans h'⟩

theorem orFlags_walk {inc len : Vector3i} {a b c : Fin 3} {w : Walk POW K}
    (h : w.After flags p inc len a b c (len a).toNat) :
    orFlag w.flagBuffer w.point Flag.free =
      orFlags flags ((List.range ((len a).toNat + 1)).map fun i : Nat => walkPoint p inc len (len a) i) Flag.free := by
  rw [List.range_succ, List.map_append, List.map_singleton, orFlags_concat, h.flagBuffer_eq, h.point_eq]

/-- Whichever axis is the main one, what is marked is the line. -/
theorem insertFreeBresenham3D_eq (flags : RingBufferBase POW Flag K) (p o : Vector3i) :
    insertFreeBresenham3D flags p o = orFlags flags (line p o) Flag.free := by
  have h0 := abs_nonneg (o 0 - p 0)
  have h1 := abs_nonneg (o 1 - p 1)
  have h2 := abs_nonneg (o 2 - p 2)
  unfold insertFreeBresenham3D line linePoint
  simp only
  split
  · next h =>
    have hl : rayLength p o = |o 0 - p 0| := by unfold rayLength; omega
    rw [hl]
    exact orFlags_walk (walk_after (by decide) (by decide) (by decide) ⟨h1, h.1⟩ ⟨h2, h.2⟩)
  · split
    · next h =>
      have hl : rayLength p o = |o 1 - p 1| := by unfold rayLength; omega
      rw [hl]
      exact orFlags_walk (walk_after (by decide) (by decide) (by decide) ⟨h0, h.1⟩ ⟨h2, h.2⟩)
    · next h h' =>
      have hl : rayLength p o = |o 2 - p 2| := by unfold rayLength; omega
      rw [hl]
      exact orFlags_walk (walk_after (by decide) (by decide) (by decide) ⟨h1, by omega⟩ ⟨h0, by omega⟩)

theorem linePoint_apply (p o : Vector3i) (i : Int) (j : Fin 3) :
    linePoint p o i j = p j + (if o j - p j < 0 then -1 else 1) * count (rayLength p o) |o j - p j| i :=
  rfl

/-- Each round is one step along the main axis. -/
theorem linePoint_main {a : Fin 3} (ha : rayLength p o = |o a - p a|) {i : Int} (hi : i ≤ rayLength p o)
    (hi' : 0 ≤ i) : linePoint p o i a = p a + (o a - p a).sign * i := by
  rcases (rayLength_nonneg p o).eq_or_lt with hzero | hl
  · have hi0 : i = 0 := by omega
    rw [hi0, linePoint_apply, count_zero (rayLength_nonneg p o), mul_zero, mul_zero]
  · rw [linePoint_apply, ← ha, count_main hl]
    have hne : o a - p a ≠ 0 := by
      rw [ha] at hl
      exact abs_pos.1 hl
    split
    · next hneg => rw [Int.sign_eq_neg_one_of_neg hneg]
    · next hnonneg => rw [Int.sign_eq_one_of_pos (by omega)]

theorem sign_mul_abs (d : Int) : (if d < 0 then -1 else 1) * |d| = d := by
  split
  · next h => rw [abs_of_neg h]; omega
  · next h => rw [abs_of_nonneg (by omega)]; omega

theorem eq_of_rayLength_eq_zero (h : rayLength p o = 0) : p = o := by
  funext j
  have hj := abs_le_rayLength p o j
  rw [h] at hj
  have := abs_nonpos_iff.1 hj
  omega

theorem linePoint_first (p o : Vector3i) : linePoint p o 0 = p := by
  funext j
  rw [linePoint_apply, count_zero (rayLength_nonneg p o), mul_zero, add_zero]

theorem linePoint_last (p o : Vector3i) : linePoint p o (rayLength p o) = o := by
  rcases (rayLength_nonneg p o).eq_or_lt with hzero | hl
  · rw [← hzero, linePoint_first, eq_of_rayLength_eq_zero hzero.symm]
  · funext j
    rw [linePoint_apply, count_last hl, sign_mul_abs]
    omega

theorem abs_signed {s l i c m : Int} (hs : s = -1 ∨ s = 1) :
    |2 * (l * (s * c) - i * (s * m))| = |2 * (l * c - i * m)| := by
  rcases hs with rfl | rfl
  · rw [← abs_neg]
    congr 1
    ring
  · congr 1
    ring

/-- A point of the line is within half a voxel of it on each axis. -/
theorem linePoint_near {i : Int} (hi : 0 ≤ i ∧ i ≤ rayLength p o) (j : Fin 3) :
    |2 * (rayLength p o * (linePoint p o i j - p j) - i * (o j - p j))| ≤ rayLength p o := by
  rcases (rayLength_nonneg p o).eq_or_lt with hzero | hl
  · have hi0 : i = 0 := by omega
    rw [hi0, ← hzero]
    simp
  · have h := abs_signed (l := rayLength p o) (i := i) (c := count (rayLength p o) |o j - p j| i) (m := |o j - p j|)
      (s := if o j - p j < 0 then -1 else 1) (by split <;> simp)
    rw [sign_mul_abs] at h
    rw [linePoint_apply, add_sub_cancel_left, h]
    exact within_half hl

theorem linePoint_step {i : Int} (hi : 0 ≤ i ∧ i < rayLength p o) (j : Fin 3) :
    |linePoint p o (i + 1) j - linePoint p o i j| ≤ 1 := by
  have hl : 0 < rayLength p o := by omega
  rw [linePoint_apply, linePoint_apply, count_succ hl (abs_nonneg _) (abs_le_rayLength p o j)]
  split <;> split <;> simp

/-- The line stays in the box that its ends span. -/
theorem linePoint_between {i : Int} (hi : 0 ≤ i ∧ i ≤ rayLength p o) (j : Fin 3) :
    min (p j) (o j) ≤ linePoint p o i j ∧ linePoint p o i j ≤ max (p j) (o j) := by
  rcases (rayLength_nonneg p o).eq_or_lt with hzero | hl
  · have hi0 : i = 0 := by omega
    rw [hi0, linePoint_first]
    omega
  · have hcount := count_nonneg (m := |o j - p j|) hl (abs_nonneg _) hi.1
    have hcount' := count_le (m := |o j - p j|) hl (abs_nonneg _) hi.2
    rw [linePoint_apply]
    split
    · next hneg =>
      rw [abs_of_neg hneg] at hcount hcount' ⊢
      omega
    · next hneg =>
      rw [abs_of_nonneg (by omega)] at hcount hcount' ⊢
      omega

theorem mem_line : c ∈ line p o ↔ ∃ i : Nat, i ≤ (rayLength p o).toNat ∧ linePoint p o i = c := by
  simp only [line, List.mem_map, List.mem_range, Nat.lt_succ_iff]

/-- What is marked goes from voxel to voxel from the one end of the ray to the other, one step along the axis of the
longest way in each round and at most one along the others, as near as can be to the straight line, and nothing else
is. -/
theorem insertFreeBresenham3D_path (flags : RingBufferBase POW Flag K) (p o : Vector3i) :
    ∃ (path : Nat → Vector3i) (l : Nat) (a : Fin 3), path 0 = p ∧ path l = o ∧ l = |o a - p a| ∧
      (∀ j, |o j - p j| ≤ |o a - p a|) ∧ (∀ i ≤ l, path i a = p a + (o a - p a).sign * i) ∧
      (∀ i < l, ∀ j, |path (i + 1) j - path i j| ≤ 1) ∧
      (∀ i ≤ l, ∀ j, |2 * (l * (path i j - p j) - i * (o j - p j))| ≤ l) ∧
      ∀ c, (insertFreeBresenham3D flags p o).at_ c =
        if ∃ i ≤ l, Congr (N POW) (path i) c then flags.at_ c ||| Flag.free else flags.at_ c := by
  have hl : ((rayLength p o).toNat : Int) = rayLength p o := Int.toNat_of_nonneg (rayLength_nonneg p o)
  obtain ⟨a, ha⟩ := exists_eq_rayLength p o
  refine ⟨fun i => linePoint p o i, (rayLength p o).toNat, a, linePoint_first p o, ?_, hl.trans ha, fun j => ?_,
    fun i hi => ?_, fun i hi j => ?_, fun i hi j => ?_, fun c => ?_⟩
  · show linePoint p o ((rayLength p o).toNat : Int) = o
    rw [hl, linePoint_last]
  · rw [← ha]
    exact abs_le_rayLength p o j
  · exact linePoint_main ha (by omega) (Int.natCast_nonneg i)
  · push_cast
    exact linePoint_step (by omega) j
  · rw [hl]
    exact linePoint_near (by omega) j
  · rw [insertFreeBresenham3D_eq, at_orFlags]
    simp only [mem_line, exists_exists_and_eq_and]

end A17.Ewok
