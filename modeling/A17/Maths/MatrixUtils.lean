import Mathlib.LinearAlgebra.Matrix.NonsingularInverse
import A17.Lib.DynamicMatrix

/-!
# `Adjugate`

`matrix_utils.h`, over a field. The determinant and the inverse are the library's, and so are parameters; what a new
matrix holds before it is written is a parameter too, and no result depends on it. The matrix put together of four
blocks is the minor (`square_minor`), so that the loop computes the adjugate whether or not the matrix has an inverse
(`square_cofactors`).
-/

namespace A17.Maths

/-- A determinant and an inverse that are exact. -/
structure ExactLinearAlgebra {K : Type} [Field K] (determinant : DynamicMatrix K → K)
    (inverse : DynamicMatrix K → DynamicMatrix K) : Prop where
  determinant_eq : ∀ {n mat}, mat.rows = n → mat.cols = n → determinant mat = (mat.square n).det
  rows_inverse : ∀ {n mat}, mat.rows = n → mat.cols = n → (inverse mat).rows = n
  cols_inverse : ∀ {n mat}, mat.rows = n → mat.cols = n → (inverse mat).cols = n
  mul_inverse : ∀ {n mat}, mat.rows = n → mat.cols = n → (mat.square n).det ≠ 0 →
    mat.square n * (inverse mat).square n = 1

section
variable {K : Type} [Field K] (determinant : DynamicMatrix K → K)
  (inverse : DynamicMatrix K → DynamicMatrix K)

/-- `temp`, whose entries were `memory`. -/
def minor (mat : DynamicMatrix K) (memory : ℕ → ℕ → K) (r c : ℕ) : DynamicMatrix K :=
  let temp : DynamicMatrix K := ⟨mat.rows - 1, mat.cols - 1, memory⟩
  let brRows := mat.rows - (r + 1)
  let brCols := mat.cols - (c + 1)
  -- top left, top right, bottom left, bottom right
  let temp := temp.assignBlock 0 0 r c mat 0 0
  let temp := temp.assignBlock 0 c r brCols mat 0 (c + 1)
  let temp := temp.assignBlock r 0 brRows c mat (r + 1) 0
  temp.assignBlock r c brRows brCols mat (r + 1) (c + 1)

def sign (r c : ℕ) : K :=
  let evenRow := r % 2 == 0
  let evenCol := c % 2 == 0
  if evenRow = evenCol then 1 else -1

/-- `memory` is what `cofactors` holds at first, and `memory' r c` what `temp` does. -/
def cofactors (mat : DynamicMatrix K) (memory : ℕ → ℕ → K) (memory' : ℕ → ℕ → ℕ → ℕ → K) : DynamicMatrix K :=
  forLoop 0 mat.rows (fun r => forLoop 0 mat.cols fun c m =>
    m.set r c (sign r c * determinant (minor mat (memory' r c) r c))) ⟨mat.rows, mat.cols, memory⟩

def adjugate [DecidableEq K] (mat : DynamicMatrix K) (memory : ℕ → ℕ → K) (memory' : ℕ → ℕ → ℕ → ℕ → K) :
    Except String (DynamicMatrix K) :=
  if mat.rows ≠ mat.cols then .error "Input must be a square matrix"
  else
    let det := determinant mat
    if det ≠ 0 then .ok (DynamicMatrix.scale det (inverse mat))
    else .ok (cofactors determinant mat memory memory').transpose

/-! ### The minors -/

section
variable {mat : DynamicMatrix K} (memory : ℕ → ℕ → K) {r c i j : ℕ}
open DynamicMatrix (assignBlock_entry assignBlock_entry_of_row assignBlock_entry_of_col)

/-- The index in the matrix of the index `i` after row or column `r` has been left out. -/
def skip (r i : ℕ) : ℕ := if i < r then i else i + 1

omit [Field K] in
theorem minor_entry (hr : r < mat.rows) (hc : c < mat.cols) (hi : i < mat.rows - 1) (hj : j < mat.cols - 1) :
    (minor mat memory r c).entry i j = mat.entry (skip r i) (skip c j) := by
  rw [minor, skip, skip]
  rcases lt_or_ge i r with hir | hri
  · rw [assignBlock_entry_of_row (.inl hir), assignBlock_entry_of_row (.inl hir), if_pos hir]
    rcases lt_or_ge j c with hjc | hcj
    · rw [assignBlock_entry_of_col (.inl hjc), assignBlock_entry (by omega) (by omega), if_pos hjc]
      simp
    · rw [assignBlock_entry (by omega) (by omega), if_neg (by omega)]
      congr 1 <;> omega
  · rw [if_neg (by omega)]
    rcases lt_or_ge j c with hjc | hcj
    · rw [assignBlock_entry_of_col (.inl hjc), assignBlock_entry (by omega) (by omega), if_pos hjc]
      congr 1 <;> omega
    · rw [assignBlock_entry (by omega) (by omega), if_neg (by omega)]
      congr 1 <;> omega

end

theorem val_succAbove {n : ℕ} (r : Fin (n + 1)) (i : Fin n) : (r.succAbove i : ℕ) = skip r i := by
  rw [Fin.succAbove, skip]
  split_ifs with hlt hval hval
  · rfl
  · exact absurd hlt hval
  · exact absurd hval hlt
  · rfl

omit [Field K] in
theorem square_minor {n : ℕ} {mat : DynamicMatrix K} (hrows : mat.rows = n + 1) (hcols : mat.cols = n + 1)
    (memory : ℕ → ℕ → K) (r c : Fin (n + 1)) :
    (minor mat memory r c).square n = (mat.square (n + 1)).submatrix r.succAbove c.succAbove := by
  ext i j
  have hr : (r : ℕ) < mat.rows := by omega
  have hc : (c : ℕ) < mat.cols := by omega
  have hentry := minor_entry memory hr hc (show (i : ℕ) < mat.rows - 1 by omega) (show (j : ℕ) < mat.cols - 1 by omega)
  rwa [← val_succAbove, ← val_succAbove] at hentry

theorem sign_eq (r c : ℕ) : (sign r c : K) = (-1) ^ (r + c) := by
  rcases Nat.even_or_odd r with hr | hr <;> rcases Nat.even_or_odd c with hc | hc
  · simp [sign, Nat.even_iff.1 hr, Nat.even_iff.1 hc, (hr.add hc).neg_one_pow]
  · simp [sign, Nat.even_iff.1 hr, Nat.odd_iff.1 hc, (hr.add_odd hc).neg_one_pow]
  · simp [sign, Nat.odd_iff.1 hr, Nat.even_iff.1 hc, (hr.add_even hc).neg_one_pow]
  · simp [sign, Nat.odd_iff.1 hr, Nat.odd_iff.1 hc, (hr.add_odd hc).neg_one_pow]

/-! ### The loop -/

variable {determinant inverse}

theorem cofactors_eq (mat : DynamicMatrix K) (memory : ℕ → ℕ → K) (memory' : ℕ → ℕ → ℕ → ℕ → K) :
    cofactors determinant mat memory memory' = DynamicMatrix.fill ⟨mat.rows, mat.cols, memory⟩
      (∅ ∪ DynamicMatrix.area (fun _ => 0) mat.cols 0 mat.rows)
      (fun r c => sign r c * determinant (minor mat (memory' r c) r c)) := by
  rw [cofactors, ← DynamicMatrix.fill_empty (m := ⟨mat.rows, mat.cols, memory⟩)
      (f := fun r c => sign r c * determinant (minor mat (memory' r c) r c)),
    DynamicMatrix.forLoop_forLoop_set (Nat.zero_le mat.rows) (fun _ _ => Nat.zero_le _) (fun _ _ _ _ _ _ => rfl),
    DynamicMatrix.fill_empty]

theorem cofactors_entry {mat : DynamicMatrix K} (memory : ℕ → ℕ → K) (memory' : ℕ → ℕ → ℕ → ℕ → K) {r c : ℕ}
    (hr : r < mat.rows) (hc : c < mat.cols) :
    (cofactors determinant mat memory memory').entry r c = sign r c * determinant (minor mat (memory' r c) r c) := by
  rw [cofactors_eq, DynamicMatrix.fill_entry_of_mem]
  right
  exact ⟨⟨Nat.zero_le r, hr⟩, Nat.zero_le c, hc⟩

variable {n : ℕ} {mat : DynamicMatrix K} (hexact : ExactLinearAlgebra determinant inverse)
include hexact

theorem determinant_minor (hrows : mat.rows = n + 1) (hcols : mat.cols = n + 1) (memory : ℕ → ℕ → K)
    (r c : Fin (n + 1)) :
    determinant (minor mat memory r c) = ((mat.square (n + 1)).submatrix r.succAbove c.succAbove).det := by
  have hr : (minor mat memory r c).rows = n := by simp [minor, DynamicMatrix.assignBlock, hrows]
  have hc : (minor mat memory r c).cols = n := by simp [minor, DynamicMatrix.assignBlock, hcols]
  rw [hexact.determinant_eq hr hc, square_minor hrows hcols]

theorem square_cofactors (hrows : mat.rows = n + 1) (hcols : mat.cols = n + 1) (memory : ℕ → ℕ → K)
    (memory' : ℕ → ℕ → ℕ → ℕ → K) :
    (cofactors determinant mat memory memory').transpose.square (n + 1) = (mat.square (n + 1)).adjugate := by
  ext i j
  have hj : (j : ℕ) < mat.rows := by omega
  have hi : (i : ℕ) < mat.cols := by omega
  calc (cofactors determinant mat memory memory').entry j i
      = sign j i * determinant (minor mat (memory' j i) j i) := cofactors_entry memory memory' hj hi
    _ = (-1) ^ (j + i : ℕ) * ((mat.square (n + 1)).submatrix j.succAbove i.succAbove).det := by
        rw [sign_eq, determinant_minor hexact hrows hcols]
    _ = (mat.square (n + 1)).adjugate i j := (Matrix.adjugate_fin_succ_eq_det_submatrix ..).symm

theorem square_scale_inverse (hrows : mat.rows = n) (hcols : mat.cols = n) (hdet : determinant mat ≠ 0) :
    (DynamicMatrix.scale (determinant mat) (inverse mat)).square n = (mat.square n).adjugate := by
  have heq := hexact.determinant_eq hrows hcols
  have hmul := hexact.mul_inverse hrows hcols (heq ▸ hdet)
  calc (DynamicMatrix.scale (determinant mat) (inverse mat)).square n
      = (mat.square n).det • (inverse mat).square n := by rw [heq]; rfl
    _ = (mat.square n).adjugate * mat.square n * (inverse mat).square n := by
        rw [Matrix.adjugate_mul, Matrix.smul_mul, one_mul]
    _ = (mat.square n).adjugate := by rw [mul_assoc, hmul, mul_one]

theorem adjugate_ok [DecidableEq K] (hrows : mat.rows = n + 1) (hcols : mat.cols = n + 1) (memory : ℕ → ℕ → K)
    (memory' : ℕ → ℕ → ℕ → ℕ → K) :
    ∃ result, adjugate determinant inverse mat memory memory' = .ok result ∧ result.rows = n + 1 ∧ result.cols = n + 1 ∧
      result.square (n + 1) = (mat.square (n + 1)).adjugate := by
  rw [adjugate, if_neg (by simp [hrows, hcols])]
  dsimp only
  split
  · rename_i hdet
    exact ⟨_, rfl, hexact.rows_inverse hrows hcols, hexact.cols_inverse hrows hcols,
      square_scale_inverse hexact hrows hcols hdet⟩
  · refine ⟨_, rfl, ?_, ?_, square_cofactors hexact hrows hcols memory memory'⟩
    · rw [cofactors_eq]
      exact hcols
    · rw [cofactors_eq]
      exact hrows

end

/-- Both branches compute the adjugate, and only square matrices are accepted. -/
theorem adjugate_spec {K : Type} [Field K] [DecidableEq K] (determinant : DynamicMatrix K → K)
    (inverse : DynamicMatrix K → DynamicMatrix K) (hexact : ExactLinearAlgebra determinant inverse)
    (memory : ℕ → ℕ → K) (memory' : ℕ → ℕ → ℕ → ℕ → K) :
    (∀ (n : ℕ) (mat : DynamicMatrix K), 1 ≤ n → mat.rows = n → mat.cols = n →
      (∃ result, adjugate determinant inverse mat memory memory' = .ok result ∧ result.rows = n ∧ result.cols = n ∧
        result.square n = (mat.square n).adjugate ∧ mat.square n * result.square n = (mat.square n).det • 1) ∧
      (determinant mat ≠ 0 → (cofactors determinant mat memory memory').transpose.square n =
        (DynamicMatrix.scale (determinant mat) (inverse mat)).square n)) ∧
    ∀ mat : DynamicMatrix K, mat.rows ≠ mat.cols →
      adjugate determinant inverse mat memory memory' = .error "Input must be a square matrix" := by
  refine ⟨fun n mat hn hrows hcols => ?_, fun mat hne => if_pos hne⟩
  obtain ⟨n, rfl⟩ := Nat.exists_eq_add_one_of_ne_zero (Nat.ne_zero_of_lt hn)
  obtain ⟨result, hok, hrows', hcols', hsquare⟩ := adjugate_ok hexact hrows hcols memory memory'
  refine ⟨⟨result, hok, hrows', hcols', hsquare, ?_⟩, fun hdet => ?_⟩
  · rw [hsquare, Matrix.mul_adjugate]
  · rw [square_cofactors hexact hrows hcols, square_scale_inverse hexact hrows hcols hdet]

section
variable {K : Type} [Field K]

def exactDeterminant (mat : DynamicMatrix K) : K := (mat.square mat.rows).det

noncomputable def exactInverse (mat : DynamicMatrix K) : DynamicMatrix K :=
  { mat with entry := fun i j =>
      if h : i < mat.rows ∧ j < mat.rows then (mat.square mat.rows)⁻¹ ⟨i, h.1⟩ ⟨j, h.2⟩ else 0 }

theorem exactLinearAlgebra : ExactLinearAlgebra (K := K) exactDeterminant exactInverse where
  determinant_eq := by
    rintro n mat rfl -
    rfl
  rows_inverse hrows _ := hrows
  cols_inverse _ hcols := hcols
  mul_inverse := by
    rintro n mat rfl - hdet
    have hsquare : (exactInverse mat).square mat.rows = (mat.square mat.rows)⁻¹ := by
      ext i j
      simp [exactInverse, DynamicMatrix.square]
    rw [hsquare, Matrix.mul_nonsing_inv _ (isUnit_iff_ne_zero.2 hdet)]

end

/-- A singular matrix, with the rows 1 2 3, 4 5 6 and 7 8 9. -/
theorem adjugate_spec_singular :
    ∃ result, adjugate exactDeterminant exactInverse ⟨3, 3, fun i j => (3 * i + j + 1 : ℚ)⟩ 0 0 = .ok result ∧
      result.square 3 = (DynamicMatrix.square ⟨3, 3, fun i j => (3 * i + j + 1 : ℚ)⟩ 3).adjugate := by
  obtain ⟨result, hok, -, -, hsquare, -⟩ := ((adjugate_spec exactDeterminant exactInverse exactLinearAlgebra 0 0).1 3
    ⟨3, 3, fun i j => (3 * i + j + 1 : ℚ)⟩ (by norm_num) rfl rfl).1
  exact ⟨result, hok, hsquare⟩

end A17.Maths
