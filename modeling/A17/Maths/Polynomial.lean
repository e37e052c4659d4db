import Mathlib.Data.Real.Basic
import A17.Lib.CoeffList
import A17.Lib.DynamicMatrix

/-!
# `polynomial.h`

In exact arithmetic, so that `FloatEq(c, 0.0)` is `c = 0`. A polynomial that was default constructed has no
coefficients and cannot be evaluated; the model has only those with coefficients, and these are always trimmed.
`reverse` is the composition with `t0 + t1 - t` (`poly_reverse`) and `derivative` the iterated derivative
(`derivative_natCast`).
-/

namespace A17
open CoeffList (poly Trimmed)
open Polynomial (C X coeff_one coeff_iterate_derivative comp_assoc eval_comp eval_zero iterate_derivative_eq_zero)
open Polynomial renaming derivative → formalDerivative
namespace Maths

structure Polynomial (K : Type) [CommRing K] where
  coefficients : List K
  nonempty : coefficients ≠ []
  trimmed : Trimmed coefficients

namespace Polynomial
section
variable {K : Type} [CommRing K]

/-! ### The coefficients -/

section
variable [DecidableEq K]

/-- `reduced_order`, with the loop at `k`. -/
def reducedOrder (coefficients : List K) : ℕ → ℕ
  | 0 => 0
  | k + 1 => if coefficients.getD (k + 1) 0 ≠ 0 then k + 1 else reducedOrder coefficients k

theorem reducedOrder_le (coefficients : List K) (k : ℕ) : reducedOrder coefficients k ≤ k := by
  induction k with
  | zero => exact le_rfl
  | succ k ih =>
    rw [reducedOrder]
    split
    · exact le_rfl
    · exact ih.trans k.le_succ

theorem getD_reducedOrder (coefficients : List K) (k : ℕ) (h : reducedOrder coefficients k ≠ 0) :
    coefficients.getD (reducedOrder coefficients k) 0 ≠ 0 := by
  induction k with
  | zero => exact absurd rfl h
  | succ k ih =>
    by_cases hne : coefficients.getD (k + 1) 0 ≠ 0
    · rwa [reducedOrder, if_pos hne]
    · rw [reducedOrder, if_neg hne] at h ⊢
      exact ih h

theorem getD_of_reducedOrder_lt (coefficients : List K) (k : ℕ) {i : ℕ} (hlt : reducedOrder coefficients k < i)
    (hle : i ≤ k) : coefficients.getD i 0 = 0 := by
  induction k with
  | zero => omega
  | succ k ih =>
    rw [reducedOrder] at hlt
    split at hlt
    · omega
    · rename_i hzero
      rcases Nat.le_succ_iff.1 hle with hle | rfl
      · exact ih hlt hle
      · simpa using hzero

/-- `coefficients.head(reduced_order + 1)`. -/
def reduce (coefficients : List K) : List K :=
  coefficients.take (reducedOrder coefficients (coefficients.length - 1) + 1)

theorem length_reduce {coefficients : List K} (h : coefficients ≠ []) :
    (reduce coefficients).length = reducedOrder coefficients (coefficients.length - 1) + 1 := by
  have hpos := List.length_pos_iff.2 h
  have hle := reducedOrder_le coefficients (coefficients.length - 1)
  rw [reduce, List.length_take]
  omega

theorem reduce_ne_nil {coefficients : List K} (h : coefficients ≠ []) : reduce coefficients ≠ [] := by
  rw [← List.length_pos_iff, length_reduce h]
  exact Nat.succ_pos _

theorem trimmed_reduce {coefficients : List K} (h : coefficients ≠ []) : Trimmed (reduce coefficients) := by
  rw [Trimmed, length_reduce h]
  intro hlt
  have hne := getD_reducedOrder coefficients (coefficients.length - 1) (by omega)
  simpa [reduce, List.getElem?_take] using hne

theorem poly_reduce (coefficients : List K) : poly (reduce coefficients) = poly coefficients := by
  ext i
  simp only [CoeffList.coeff_poly, reduce, List.getD_eq_getElem?_getD, List.getElem?_take]
  split
  · rfl
  · rename_i hge
    rcases lt_or_ge i coefficients.length with hlt | hlen
    · have hzero := getD_of_reducedOrder_lt coefficients (coefficients.length - 1) (i := i) (by omega) (by omega)
      simpa using hzero.symm
    · simp [hlen]

def setCoefficients (coefficients : List K) (h : coefficients ≠ []) : Polynomial K :=
  ⟨reduce coefficients, reduce_ne_nil h, trimmed_reduce h⟩

/-- The constructor from coefficients. -/
def new (coefficients : List K) (h : coefficients ≠ []) : Polynomial K := setCoefficients coefficients h

theorem poly_new (coefficients : List K) (h : coefficients ≠ []) :
    poly (new coefficients h).coefficients = poly coefficients :=
  poly_reduce coefficients

end

/-- A polynomial has one representation. -/
theorem ext_poly {p q : Polynomial K} (h : poly p.coefficients = poly q.coefficients) :
    p.coefficients = q.coefficients :=
  p.trimmed.ext q.trimmed p.nonempty q.nonempty h

/-- `operator()`. -/
def eval (p : Polynomial K) (t : K) : K :=
  p.coefficients.dropLast.foldr (fun c value => value * t + c) (p.coefficients.getLast p.nonempty)

theorem eval_eq (p : Polynomial K) (t : K) : p.eval t = (poly p.coefficients).eval t := by
  have hlast : p.coefficients.getLast p.nonempty = 0 * t + p.coefficients.getLast p.nonempty := by simp
  rw [eval, ← CoeffList.foldr_eq_eval]
  conv_rhs => rw [← List.dropLast_append_getLast p.nonempty, List.foldr_append]
  rw [List.foldr_cons, List.foldr_nil, ← hlast]

/-! ### Derivatives -/

/-- `derivative_coefficient`, for an index of at least `order`. -/
def derivativeCoefficient (coeffIdx order : ℕ) : K :=
  (List.range order).foldl (fun value i => value * ((coeffIdx - i : ℕ) : K)) 1

/-- The loop down to `order`, with the next index `order + n`. The new coefficients are written from the last on. -/
def derivativeLoop (coefficients : List K) (order : ℕ) : ℕ → List K → List K
  | 0, newCoefficients => newCoefficients
  | n + 1, newCoefficients =>
    let coeffIdx := order + n
    derivativeLoop coefficients order n
      (coefficients.getD coeffIdx 0 * derivativeCoefficient coeffIdx order :: newCoefficients)

theorem derivativeLoop_ne_nil (coefficients : List K) (order n : ℕ) {l : List K} (h : l ≠ []) :
    derivativeLoop coefficients order n l ≠ [] := by
  induction n generalizing l with
  | zero => exact h
  | succ n ih => exact ih (List.cons_ne_nil _ _)

theorem derivativeCoefficient_eq (coeffIdx order : ℕ) :
    (derivativeCoefficient coeffIdx order : K) = (coeffIdx.descFactorial order : ℕ) := by
  rw [derivativeCoefficient]
  induction order with
  | zero => simp
  | succ order ih =>
    rw [List.range_succ, List.foldl_concat, ih, Nat.descFactorial_succ, Nat.cast_mul, mul_comm]

/-- Below index `n` the loop writes the coefficients of the derivative. -/
theorem derivativeLoop_eq (coefficients : List K) (order n : ℕ) (l : List K) :
    derivativeLoop coefficients order n l =
      (List.range n).map (fun i => coefficients.getD (order + i) 0 * derivativeCoefficient (order + i) order) ++ l := by
  induction n generalizing l with
  | zero => simp [derivativeLoop]
  | succ n ih => simp [derivativeLoop, ih, List.range_succ]

theorem derivativeLoop_last {coefficients : List K} {order n coeffIdx : ℕ} (h : order + n = coeffIdx) :
    derivativeLoop coefficients order (n + 1) [] = derivativeLoop coefficients order n
      [coefficients.getD coeffIdx 0 * derivativeCoefficient coeffIdx order] := by
  subst h
  rfl

theorem poly_derivativeLoop {coefficients : List K} {order : ℕ} (h : order < coefficients.length) :
    let coeffIdx := coefficients.length - 1
    poly (derivativeLoop coefficients order (coeffIdx - order)
      [coefficients.getD coeffIdx 0 * derivativeCoefficient coeffIdx order]) =
        formalDerivative^[order] (poly coefficients) := by
  intro coeffIdx
  have hidx : order + (coeffIdx - order) = coeffIdx := by omega
  -- the last coefficient is what the loop would write at the index after its first
  rw [← derivativeLoop_last hidx, derivativeLoop_eq, List.append_nil]
  ext i
  rw [CoeffList.poly_map_range, coeff_iterate_derivative, CoeffList.coeff_poly, derivativeCoefficient_eq, nsmul_eq_mul,
    add_comm i, mul_comm]
  split
  · rfl
  · rw [List.getD_eq_getElem?_getD, List.getElem?_eq_none (by omega)]
    simp

theorem iterate_formalDerivative_eq_zero {coefficients : List K} {order : ℕ} (h : coefficients.length ≤ order) :
    formalDerivative^[order] (poly coefficients) = 0 := by
  ext i
  rw [coeff_iterate_derivative, CoeffList.coeff_poly, List.getD_eq_getElem?_getD, List.getElem?_eq_none (by omega)]
  simp

section
variable [DecidableEq K]

/-- `derivative(order)`. -/
def derivative (p : Polynomial K) (order : ℤ) : Except String (Polynomial K) :=
  if order < 0 then .error "Derivative order must be positive"
  else if order = 0 then .ok (new p.coefficients p.nonempty)
  else
    let newSize := (p.coefficients.length : ℤ) - order
    if newSize ≤ 0 then .ok (new [0] (List.cons_ne_nil _ _))
    else
      let coeffIdx := p.coefficients.length - 1
      let order := order.toNat
      let last := p.coefficients.getD coeffIdx 0 * derivativeCoefficient coeffIdx order
      .ok (new (derivativeLoop p.coefficients order (coeffIdx - order) [last])
        (derivativeLoop_ne_nil _ _ _ (List.cons_ne_nil _ _)))

/-- `derivative(t, order)`. -/
def derivativeAt (p : Polynomial K) (t : K) (order : ℤ) : Except String K := do
  let derivativePolynomial ← p.derivative order
  return derivativePolynomial.eval t

theorem derivative_natCast (p : Polynomial K) (order : ℕ) :
    ∃ q, p.derivative order = .ok q ∧ poly q.coefficients = formalDerivative^[order] (poly p.coefficients) := by
  rw [derivative, if_neg (by omega)]
  split
  · rename_i hzero
    obtain rfl : order = 0 := by simpa using hzero
    exact ⟨_, rfl, poly_new ..⟩
  · rcases lt_or_ge order p.coefficients.length with hlt | hge
    · rw [if_neg (by omega)]
      exact ⟨_, rfl, (poly_new ..).trans (poly_derivativeLoop hlt)⟩
    · rw [if_pos (by omega), iterate_formalDerivative_eq_zero hge]
      exact ⟨_, rfl, (poly_new ..).trans (by simp [poly])⟩

theorem derivative_of_neg (p : Polynomial K) {order : ℤ} (h : order < 0) :
    p.derivative order = .error "Derivative order must be positive" :=
  if_pos h

theorem derivativeAt_of_ok {p q : Polynomial K} {order : ℤ} (h : p.derivative order = .ok q) (t : K) :
    p.derivativeAt t order = .ok ((poly q.coefficients).eval t) := by
  rw [derivativeAt, h, ← eval_eq]
  rfl

theorem derivativeAt_of_neg (p : Polynomial K) {order : ℤ} (h : order < 0) (t : K) :
    p.derivativeAt t order = .error "Derivative order must be positive" := by
  rw [derivativeAt, derivative_of_neg p h]
  rfl

theorem derivative_derivative {p q : Polynomial K} {k : ℕ} (h : p.derivative k = .ok q) (j : ℕ) :
    ∃ r r', q.derivative j = .ok r ∧ p.derivative (j + k : ℕ) = .ok r' ∧ r.coefficients = r'.coefficients := by
  obtain ⟨q', hq, hpoly⟩ := p.derivative_natCast k
  obtain rfl : q = q' := Except.ok.inj (h.symm.trans hq)
  obtain ⟨r, hr, hpoly'⟩ := q.derivative_natCast j
  obtain ⟨r', hr', hpoly''⟩ := p.derivative_natCast (j + k)
  refine ⟨r, r', hr, hr', ext_poly ?_⟩
  rw [hpoly', hpoly'', hpoly, Function.iterate_add_apply]

end

/-! ### `reverse` -/

def conversionMatrix (c : K) (size : ℕ) : DynamicMatrix K :=
  let m := (DynamicMatrix.zero size size).set 0 0 1
  let m := forLoop 1 size (fun col m => m.set 0 col (c * m.entry 0 (col - 1))) m
  forLoop 1 size (fun row => forLoop row size fun col m =>
    m.set row col (c * m.entry row (col - 1) - m.entry (row - 1) (col - 1))) m

/-- What a column of the matrix should be. -/
noncomputable def conversion (c : K) (row col : ℕ) : K := ((C c - X) ^ col).coeff row

theorem conversion_zero_succ (c : K) (col : ℕ) : conversion c 0 (col + 1) = c * conversion c 0 col := by
  rw [conversion, conversion, pow_succ', sub_mul]
  simp

theorem conversion_succ_succ (c : K) (row col : ℕ) :
    conversion c (row + 1) (col + 1) = c * conversion c (row + 1) col - conversion c row col := by
  rw [conversion, conversion, conversion, pow_succ', sub_mul]
  simp

theorem conversion_of_lt (c : K) {row col : ℕ} (h : col < row) : conversion c row col = 0 := by
  obtain ⟨row, rfl⟩ := Nat.exists_eq_add_one_of_ne_zero (Nat.ne_zero_of_lt h)
  induction col generalizing row with
  | zero => simp [conversion, coeff_one]
  | succ col ih =>
    obtain ⟨row, rfl⟩ := Nat.exists_eq_add_one_of_ne_zero (n := row) (by omega)
    rw [conversion_succ_succ, ih (row + 1) (by omega), ih row (by omega)]
    simp

open DynamicMatrix (zero cells area mem_cells mem_area)

theorem zero_set_corner (c : K) (size : ℕ) :
    (zero size size).set 0 0 1 = (zero size size).fill (cells 0 0 1) (conversion c) := by
  have hone : conversion c 0 0 = 1 := by simp [conversion]
  have hset := DynamicMatrix.set_fill (m := zero size size) (f := conversion c) ∅ 0 0
  rwa [DynamicMatrix.fill_empty, hone, ← DynamicMatrix.cells_self 0 0, ← DynamicMatrix.cells_succ 0 le_rfl] at hset

theorem conversionMatrix_eq (c : K) {size : ℕ} (h : 0 < size) : conversionMatrix c size =
    (zero size size).fill (cells 0 0 1 ∪ cells 0 1 size ∪ area (fun row => row) size 1 size) (conversion c) := by
  have hone : 1 ≤ size := h
  rw [conversionMatrix, zero_set_corner c, DynamicMatrix.forLoop_set hone, DynamicMatrix.forLoop_forLoop_set hone]
  · intro row hrow
    exact hrow.le
  · intro row col hlo hhi hle hlt
    obtain ⟨row, rfl⟩ := Nat.exists_eq_add_one_of_ne_zero (Nat.ne_zero_of_lt hlo)
    obtain ⟨col, rfl⟩ := Nat.exists_eq_add_one_of_ne_zero (Nat.ne_zero_of_lt (hlo.trans hle))
    rw [conversion_succ_succ, Nat.add_sub_cancel, Nat.add_sub_cancel, DynamicMatrix.fill_zero_entry,
      DynamicMatrix.fill_zero_entry]
    · -- the row above
      left
      simp only [mem_cells, mem_area, Set.mem_union]
      omega
    · -- to the left of the diagonal nothing has been written
      rcases Nat.lt_or_ge col (row + 1) with hdiag | hright
      · exact .inr (conversion_of_lt c hdiag)
      · left
        simp only [mem_cells, mem_area, Set.mem_union, true_and]
        omega
  · intro col hlo hhi
    obtain ⟨col, rfl⟩ := Nat.exists_eq_add_one_of_ne_zero (Nat.ne_zero_of_lt hlo)
    rw [conversion_zero_succ, Nat.add_sub_cancel, DynamicMatrix.fill_zero_entry]
    left
    simp only [mem_cells, Set.mem_union, true_and]
    omega

theorem conversionMatrix_entry (c : K) {size row col : ℕ} (hrow : row < size) (hcol : col < size) :
    (conversionMatrix c size).entry row col = conversion c row col := by
  rw [conversionMatrix_eq c (Nat.zero_lt_of_lt hrow), DynamicMatrix.fill_zero_entry]
  rcases Nat.lt_or_ge col row with hdiag | hright
  · exact .inr (conversion_of_lt c hdiag)
  · left
    simp only [mem_cells, mem_area, Set.mem_union]
    omega

/-- `conversion_matrix * coefficients_`. -/
def reverseCoefficients (coefficients : List K) (c : K) : List K :=
  (conversionMatrix c coefficients.length).mulVec fun k => coefficients.getD k 0

theorem reverseCoefficients_eq {coefficients : List K} (h : coefficients ≠ []) (c : K) :
    reverseCoefficients coefficients c = (List.range coefficients.length).map fun row =>
      ∑ col ∈ Finset.range coefficients.length, (conversionMatrix c coefficients.length).entry row col *
        coefficients.getD col 0 := by
  rw [reverseCoefficients, DynamicMatrix.mulVec]
  have hsize := conversionMatrix_eq c (List.length_pos_iff.2 h)
  rw [show (conversionMatrix c coefficients.length).rows = coefficients.length by rw [hsize]; rfl,
    show (conversionMatrix c coefficients.length).cols = coefficients.length by rw [hsize]; rfl]

theorem reverseCoefficients_ne_nil {coefficients : List K} (h : coefficients ≠ []) (c : K) :
    reverseCoefficients coefficients c ≠ [] := by
  rw [reverseCoefficients_eq h]
  simpa using h

theorem poly_reverseCoefficients {coefficients : List K} (h : coefficients ≠ []) (c : K) :
    poly (reverseCoefficients coefficients c) = (poly coefficients).comp (C c - X) := by
  ext row
  rw [reverseCoefficients_eq h, CoeffList.poly_map_range, CoeffList.coeff_comp_poly]
  split
  · rename_i hrow
    refine Finset.sum_congr rfl fun col hcol => ?_
    rw [conversionMatrix_entry c hrow (Finset.mem_range.1 hcol)]
    rfl
  · rename_i hrow
    refine (Finset.sum_eq_zero fun col hcol => ?_).symm
    have hlt := Finset.mem_range.1 hcol
    have hzero : ((C c - X) ^ col).coeff row = 0 := conversion_of_lt c (by omega)
    rw [hzero, zero_mul]

section
variable [DecidableEq K]

def reverse (p : Polynomial K) (t0 t1 : K) : Polynomial K :=
  new (reverseCoefficients p.coefficients (t0 + t1)) (reverseCoefficients_ne_nil p.nonempty (t0 + t1))

theorem poly_reverse (p : Polynomial K) (t0 t1 : K) :
    poly (p.reverse t0 t1).coefficients = (poly p.coefficients).comp (C (t0 + t1) - X) := by
  rw [reverse, poly_new, poly_reverseCoefficients p.nonempty]

end
end

/-! ### Real polynomials -/

/-- Trimming changes no value, the reversed polynomial has the value at `t0 + t1 - t`, and reversing it again gives
the polynomial back. -/
theorem reverse_spec (coefficients : List ℝ) (h : coefficients ≠ []) (t0 t1 : ℝ) :
    (∀ t, (new coefficients h).eval t = (poly coefficients).eval t) ∧
      (∀ t, ((new coefficients h).reverse t0 t1).eval t = (new coefficients h).eval (t0 + t1 - t)) ∧
      (((new coefficients h).reverse t0 t1).reverse t0 t1).coefficients = (new coefficients h).coefficients := by
  refine ⟨fun t => ?_, fun t => ?_, ?_⟩
  · rw [eval_eq, poly_new]
  · rw [eval_eq, eval_eq, poly_reverse]
    simp [eval_comp]
  · refine ext_poly ?_
    rw [poly_reverse, poly_reverse]
    simp [comp_assoc]

theorem reverse_spec_quadratic :
    (((new [1, 2, 3, 0] (List.cons_ne_nil (1 : ℝ) _)).reverse 0 1).reverse 0 1).coefficients =
      (new [1, 2, 3, 0] (List.cons_ne_nil (1 : ℝ) _)).coefficients :=
  (reverse_spec [1, 2, 3, 0] (List.cons_ne_nil _ _) 0 1).2.2

example : ((new [1, 2, 3, 0] (List.cons_ne_nil (1 : ℤ) _)).reverse 0 1).coefficients = [6, -8, 3] := by decide

/-- The derivative of an order is that of the polynomial with the given coefficients, also in its values, and orders
add up; a negative order is refused. -/
theorem derivative_spec (coefficients : List ℝ) (h : coefficients ≠ []) :
    (∀ k : ℕ, ∃ q, (new coefficients h).derivative k = .ok q ∧
      poly q.coefficients = formalDerivative^[k] (poly coefficients) ∧
      (∀ t, (new coefficients h).derivativeAt t k = .ok ((formalDerivative^[k] (poly coefficients)).eval t)) ∧
      ((poly coefficients).natDegree < k → ∀ t, (new coefficients h).derivativeAt t k = .ok 0) ∧
      ∀ j : ℕ, ∃ r r', q.derivative j = .ok r ∧ (new coefficients h).derivative (j + k : ℕ) = .ok r' ∧
        r.coefficients = r'.coefficients) ∧
    ∀ order < 0, (new coefficients h).derivative order = .error "Derivative order must be positive" ∧
      ∀ t, (new coefficients h).derivativeAt t order = .error "Derivative order must be positive" := by
  set p := new coefficients h with hp
  refine ⟨fun k => ?_, fun order horder => ⟨p.derivative_of_neg horder, p.derivativeAt_of_neg horder⟩⟩
  obtain ⟨q, hq, hpoly⟩ := p.derivative_natCast k
  rw [hp, poly_new] at hpoly
  refine ⟨q, hq, hpoly, fun t => ?_, fun hdegree t => ?_, derivative_derivative hq⟩
  · rw [derivativeAt_of_ok hq, hpoly]
  · rw [derivativeAt_of_ok hq, hpoly, iterate_derivative_eq_zero hdegree, eval_zero]

theorem derivative_spec_cubic : ∃ q, (new [4, 3, 2, 1] (List.cons_ne_nil (4 : ℝ) _)).derivative (2 : ℕ) = .ok q ∧
    poly q.coefficients = formalDerivative^[2] (poly [4, 3, 2, 1]) := by
  obtain ⟨q, hq, hpoly, -⟩ := (derivative_spec [4, 3, 2, 1] (List.cons_ne_nil _ _)).1 2
  exact ⟨q, hq, hpoly⟩

end Polynomial
end Maths
end A17
