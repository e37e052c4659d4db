import Mathlib.Algebra.Polynomial.Derivative

/-!
# Coefficient lists

A list of coefficients, the lowest first, stands for a polynomial (`poly`). A `Trimmed` list has no zero at its end,
unless that is all it has; non-empty trimmed lists are determined by their polynomial (`Trimmed.ext`).
-/

namespace CoeffList
open Polynomial

section
variable {K : Type} [CommSemiring K] {l l' : List K}

noncomputable def poly : List K → K[X]
  | [] => 0
  | c :: l => X * poly l + C c

@[simp] theorem coeff_poly (l : List K) (n : ℕ) : (poly l).coeff n = l.getD n 0 := by
  induction l generalizing n with
  | nil => simp [poly]
  | cons c l ih =>
    cases n with
    | zero => simp [poly]
    | succ n => simp [poly, ih]

/-- Horner's scheme. -/
theorem foldr_eq_eval (l : List K) (t : K) : l.foldr (fun c value => value * t + c) 0 = (poly l).eval t := by
  induction l with
  | nil => simp [poly]
  | cons c l ih =>
    rw [List.foldr_cons, ih, poly, eval_add, eval_mul, eval_X, eval_C, mul_comm]

theorem poly_map_range (n : ℕ) (f : ℕ → K) (i : ℕ) :
    (poly ((List.range n).map f)).coeff i = if i < n then f i else 0 := by
  rw [coeff_poly]
  rcases lt_or_ge i n with hlt | hge
  · simp [hlt]
  · simp [hge]

theorem poly_eq_sum (l : List K) : poly l = ∑ j ∈ Finset.range l.length, C (l.getD j 0) * X ^ j := by
  ext i
  simp only [coeff_poly, finsetSum_coeff, coeff_C_mul, coeff_X_pow, mul_ite, mul_one, mul_zero, Finset.sum_ite_eq]
  rcases lt_or_ge i l.length with hlt | hge
  · simp [hlt]
  · simp [hge]

theorem coeff_comp_poly (l : List K) (q : K[X]) (i : ℕ) :
    ((poly l).comp q).coeff i = ∑ j ∈ Finset.range l.length, (q ^ j).coeff i * l.getD j 0 := by
  rw [poly_eq_sum, sum_comp, finsetSum_coeff]
  refine Finset.sum_congr rfl fun j _ => ?_
  rw [mul_comp, C_comp, pow_comp, X_comp, coeff_C_mul, mul_comm]

def Trimmed (l : List K) : Prop := 1 < l.length → l.getD (l.length - 1) 0 ≠ 0

theorem Trimmed.length_le (htrim : Trimmed l) (hne : l' ≠ []) (h : poly l = poly l') : l.length ≤ l'.length := by
  by_contra! hlt
  have hpos : 0 < l'.length := List.length_pos_iff.2 hne
  refine htrim (by omega) ?_
  rw [← coeff_poly, h, coeff_poly]
  simp [List.getElem?_eq_none (show l'.length ≤ l.length - 1 by omega)]

theorem Trimmed.ext (htrim : Trimmed l) (htrim' : Trimmed l') (hne : l ≠ []) (hne' : l' ≠ [])
    (h : poly l = poly l') : l = l' := by
  refine List.ext_getElem (le_antisymm (htrim.length_le hne' h) (htrim'.length_le hne h.symm)) fun i hi hi' => ?_
  have hcoeff := congrArg (fun p => p.coeff i) h
  simpa [hi, hi'] using hcoeff

end

end CoeffList
