import Mathlib.LinearAlgebra.Matrix.Determinant.Basic

/-!
# Matrices of runtime size, filled by loops

A matrix has its sizes as values. Entries are written one at a time or as a block; `fill` says what a whole region
holds after that. If the value a loop writes to a cell is `f` of the cell once the cells before it are filled with
`f`, the loop fills all its cells with `f` (`forLoop_set`, `forLoop_forLoop_set`).
-/

/-- `for (k = lo; k < hi; ++k)`. -/
def forLoop {σ : Type} (lo hi : ℕ) (body : ℕ → σ → σ) (s : σ) : σ :=
  (List.range' lo (hi - lo)).foldl (fun s k => body k s) s

theorem forLoop_of_le {σ : Type} {lo hi : ℕ} (h : hi ≤ lo) (body : ℕ → σ → σ) (s : σ) : forLoop lo hi body s = s := by
  simp [forLoop, Nat.sub_eq_zero_of_le h]

theorem forLoop_succ {σ : Type} {lo hi : ℕ} (h : lo ≤ hi) (body : ℕ → σ → σ) (s : σ) :
    forLoop lo (hi + 1) body s = body hi (forLoop lo hi body s) := by
  rw [forLoop, Nat.succ_sub h, List.range'_concat, List.foldl_concat]
  simp [forLoop, h]

/-- The invariant rule. -/
theorem forLoop_invariant {σ : Type} {I : ℕ → σ → Prop} {lo hi : ℕ} {body : ℕ → σ → σ} {s : σ} (hle : lo ≤ hi)
    (h0 : I lo s) (hstep : ∀ k s, lo ≤ k → k < hi → I k s → I (k + 1) (body k s)) : I hi (forLoop lo hi body s) := by
  induction hi, hle using Nat.le_induction with
  | base => rwa [forLoop_of_le le_rfl]
  | succ hi hle ih =>
    rw [forLoop_succ hle]
    exact hstep hi _ hle (Nat.lt_succ_self hi) (ih fun k s hlo hhi => hstep k s hlo (Nat.lt_succ_of_lt hhi))

/-- What is in `entry` beyond `rows` and `cols` has no meaning. -/
structure DynamicMatrix (K : Type) where
  rows : ℕ
  cols : ℕ
  entry : ℕ → ℕ → K

namespace DynamicMatrix
variable {K : Type}

def zero [Zero K] (rows cols : ℕ) : DynamicMatrix K := ⟨rows, cols, fun _ _ => 0⟩

def set (m : DynamicMatrix K) (row col : ℕ) (value : K) : DynamicMatrix K :=
  { m with entry := fun i j => if i = row ∧ j = col then value else m.entry i j }

/-- `m.block(row, col, rows, cols) = src.block(srcRow, srcCol, rows, cols)`. -/
def assignBlock (m : DynamicMatrix K) (row col rows cols : ℕ) (src : DynamicMatrix K) (srcRow srcCol : ℕ) :
    DynamicMatrix K :=
  { m with entry := fun i j =>
      if (row ≤ i ∧ i < row + rows) ∧ (col ≤ j ∧ j < col + cols) then
        src.entry (srcRow + (i - row)) (srcCol + (j - col))
      else m.entry i j }

def transpose (m : DynamicMatrix K) : DynamicMatrix K := ⟨m.cols, m.rows, fun i j => m.entry j i⟩

def scale [Mul K] (a : K) (m : DynamicMatrix K) : DynamicMatrix K := { m with entry := fun i j => a * m.entry i j }

/-- The product with a vector of `m.cols` components. -/
def mulVec [Semiring K] (m : DynamicMatrix K) (v : ℕ → K) : List K :=
  (List.range m.rows).map fun i => ∑ j ∈ Finset.range m.cols, m.entry i j * v j

def square (m : DynamicMatrix K) (n : ℕ) : Matrix (Fin n) (Fin n) K := Matrix.of fun i j => m.entry i j

section
variable {m src : DynamicMatrix K} {row col rows cols srcRow srcCol i j : ℕ}

theorem assignBlock_entry (hrow : row ≤ i ∧ i < row + rows) (hcol : col ≤ j ∧ j < col + cols) :
    (m.assignBlock row col rows cols src srcRow srcCol).entry i j =
      src.entry (srcRow + (i - row)) (srcCol + (j - col)) :=
  if_pos ⟨hrow, hcol⟩

theorem assignBlock_entry_of_row (h : i < row ∨ row + rows ≤ i) :
    (m.assignBlock row col rows cols src srcRow srcCol).entry i j = m.entry i j :=
  if_neg fun hcell => by omega

theorem assignBlock_entry_of_col (h : j < col ∨ col + cols ≤ j) :
    (m.assignBlock row col rows cols src srcRow srcCol).entry i j = m.entry i j :=
  if_neg fun hcell => by omega

end

/-! ### Regions -/

variable {m : DynamicMatrix K} {f : ℕ → ℕ → K}

open Classical in
/-- `m` with `f` on the region. -/
noncomputable def fill (m : DynamicMatrix K) (region : Set (ℕ × ℕ)) (f : ℕ → ℕ → K) : DynamicMatrix K :=
  { m with entry := fun i j => if (i, j) ∈ region then f i j else m.entry i j }

theorem fill_empty : m.fill ∅ f = m := by simp [fill]

theorem fill_entry_of_mem {region : Set (ℕ × ℕ)} {i j : ℕ} (h : (i, j) ∈ region) :
    (m.fill region f).entry i j = f i j :=
  if_pos h

theorem fill_zero_entry [Zero K] {rows cols : ℕ} {region : Set (ℕ × ℕ)} {i j : ℕ} (h : (i, j) ∈ region ∨ f i j = 0) :
    ((zero rows cols).fill region f).entry i j = f i j := by
  by_cases hmem : (i, j) ∈ region
  · exact if_pos hmem
  · exact (if_neg hmem).trans (h.resolve_left hmem).symm

theorem set_fill (region : Set (ℕ × ℕ)) (row col : ℕ) :
    (m.fill region f).set row col (f row col) = m.fill (insert (row, col) region) f := by
  simp only [set, fill, mk.injEq, true_and]
  funext i j
  by_cases hcell : i = row ∧ j = col
  · simp [hcell]
  · have hiff : (i, j) ∈ insert (row, col) region ↔ (i, j) ∈ region := by simp [hcell]
    rw [if_neg hcell]
    by_cases hregion : (i, j) ∈ region
    · rw [if_pos hregion, if_pos (hiff.2 hregion)]
    · rw [if_neg hregion, if_neg (mt hiff.1 hregion)]

/-- A part of a row. -/
def cells (row lo hi : ℕ) : Set (ℕ × ℕ) := {c | c.1 = row ∧ lo ≤ c.2 ∧ c.2 < hi}

theorem mem_cells {row lo hi i j : ℕ} : (i, j) ∈ cells row lo hi ↔ i = row ∧ lo ≤ j ∧ j < hi := Iff.rfl

theorem cells_self (row lo : ℕ) : cells row lo lo = ∅ := by
  ext ⟨i, j⟩
  simp only [mem_cells, Set.mem_empty_iff_false, iff_false]
  omega

theorem cells_succ (row : ℕ) {lo hi : ℕ} (h : lo ≤ hi) :
    cells row lo (hi + 1) = insert (row, hi) (cells row lo hi) := by
  ext ⟨i, j⟩
  simp only [mem_cells, Set.mem_insert_iff, Prod.mk.injEq]
  omega

/-- Of the rows from `lo` to `hi` the cells from `start` to `n`. -/
def area (start : ℕ → ℕ) (n lo hi : ℕ) : Set (ℕ × ℕ) := {c | (lo ≤ c.1 ∧ c.1 < hi) ∧ start c.1 ≤ c.2 ∧ c.2 < n}

theorem mem_area {start : ℕ → ℕ} {n lo hi i j : ℕ} :
    (i, j) ∈ area start n lo hi ↔ (lo ≤ i ∧ i < hi) ∧ start i ≤ j ∧ j < n := Iff.rfl

theorem area_self (start : ℕ → ℕ) (n lo : ℕ) : area start n lo lo = ∅ := by
  ext ⟨i, j⟩
  simp only [mem_area, Set.mem_empty_iff_false, iff_false]
  omega

theorem area_succ (start : ℕ → ℕ) (n : ℕ) {lo hi : ℕ} (h : lo ≤ hi) :
    area start n lo (hi + 1) = area start n lo hi ∪ cells hi (start hi) n := by
  ext ⟨i, j⟩
  simp only [mem_area, mem_cells, Set.mem_union]
  constructor
  · rintro ⟨hi, hj⟩
    rcases Nat.lt_succ_iff_lt_or_eq.1 hi.2 with hlt | rfl
    · exact .inl ⟨⟨hi.1, hlt⟩, hj⟩
    · exact .inr ⟨rfl, hj⟩
  · rintro (⟨hi, hj⟩ | ⟨rfl, hj⟩)
    · exact ⟨⟨hi.1, Nat.lt_succ_of_lt hi.2⟩, hj⟩
    · exact ⟨⟨h, Nat.lt_succ_self i⟩, hj⟩

theorem forLoop_set {region : Set (ℕ × ℕ)} {row lo hi : ℕ} {value : ℕ → DynamicMatrix K → K} (hle : lo ≤ hi)
    (hvalue : ∀ col, lo ≤ col → col < hi → value col (m.fill (region ∪ cells row lo col) f) = f row col) :
    forLoop lo hi (fun col m => m.set row col (value col m)) (m.fill region f) =
      m.fill (region ∪ cells row lo hi) f := by
  refine forLoop_invariant (I := fun col s => s = m.fill (region ∪ cells row lo col) f) hle ?_
    fun col s hlo hhi hs => ?_
  · rw [cells_self, Set.union_empty]
  · subst hs
    rw [hvalue col hlo hhi, set_fill, cells_succ row hlo, Set.union_insert]

theorem forLoop_forLoop_set {region : Set (ℕ × ℕ)} {start : ℕ → ℕ} {n lo hi : ℕ}
    {value : ℕ → ℕ → DynamicMatrix K → K} (hle : lo ≤ hi) (hstart : ∀ row, row < hi → start row ≤ n)
    (hvalue : ∀ row col, lo ≤ row → row < hi → start row ≤ col → col < n →
      value row col (m.fill (region ∪ area start n lo row ∪ cells row (start row) col) f) = f row col) :
    forLoop lo hi (fun row => forLoop (start row) n fun col m => m.set row col (value row col m)) (m.fill region f) =
      m.fill (region ∪ area start n lo hi) f := by
  refine forLoop_invariant (I := fun row s => s = m.fill (region ∪ area start n lo row) f) hle ?_
    fun row s hlo hhi hs => ?_
  · rw [area_self, Set.union_empty]
  · subst hs
    rw [forLoop_set (hstart row hhi) (fun col => hvalue row col hlo hhi), area_succ start n hlo, Set.union_assoc]

end DynamicMatrix
