import Mathlib.Algebra.Group.ModEq
import Mathlib.Algebra.Order.Floor.Ring
import Mathlib.Tactic.Linarith
import Mathlib.Tactic.Ring

/-!
# Reduction by a period

Loops that take a period off a number, or add one to it, until it has come within a bound. They end, for the numbers
are archimedean; `descend_ends` and `ascend_ends` count the rounds. The result is congruent to the argument and less
than a period inside the bound, unless there was nothing to do. `fmod` is the remainder of C's mathematics library.
-/

namespace Wrap

/-- `while (continues a) a = body a` is left with `result` after so many rounds. -/
structure Ends {α : Type} (continues : α → Prop) (body : α → α) (a : α) (rounds : ℕ) (result : α) : Prop where
  runs : ∀ i < rounds, continues (body^[i] a)
  result_eq : body^[rounds] a = result
  stops : ¬ continues result

section
variable {α : Type} {continues : α → Prop} {body : α → α} {a result : α} {rounds : ℕ}

theorem Ends.skip (h : ¬ continues a) : Ends continues body a 0 a :=
  ⟨fun i hi => absurd hi i.not_lt_zero, rfl, h⟩

theorem Ends.round (h : continues a) (hrest : Ends continues body (body a) rounds result) :
    Ends continues body a (rounds + 1) result := by
  refine ⟨fun i hi => ?_, hrest.result_eq, hrest.stops⟩
  cases i with
  | zero => exact h
  | succ i => exact hrest.runs i (Nat.lt_of_succ_lt_succ hi)

end

theorem toNat_ceil_eq {K : Type} [Field K] [LinearOrder K] [IsStrictOrderedRing K] [FloorRing K] {p : K}
    (hp : 0 < p) {a b : K} (hab : b + p = a) (ha : 0 < a) : ⌈a / p⌉.toNat = ⌈b / p⌉.toNat + 1 := by
  have hstep : ⌈b / p⌉ = ⌈a / p⌉ - 1 := by
    rw [← hab, add_div, div_self hp.ne', Int.ceil_add_one, add_sub_cancel_right]
  have hpos : 0 < ⌈a / p⌉ := Int.ceil_pos.2 (div_pos ha hp)
  omega

theorem toNat_ceil_lt {K : Type} [Field K] [LinearOrder K] [IsStrictOrderedRing K] [FloorRing K] {p : K}
    (hp : 0 < p) {a b : K} (hab : b + p = a) (ha : 0 < a) : ⌈b / p⌉.toNat < ⌈a / p⌉.toNat := by
  have hstep := toNat_ceil_eq hp hab ha
  omega

theorem toNat_ceil_eq_zero {K : Type} [Field K] [LinearOrder K] [IsStrictOrderedRing K] [FloorRing K] {p : K}
    (hp : 0 < p) {a : K} (ha : a ≤ 0) : ⌈a / p⌉.toNat = 0 := by
  have hdiv : a / p ≤ 0 := div_nonpos_of_nonpos_of_nonneg ha hp.le
  have hceil : ⌈a / p⌉ ≤ 0 := Int.ceil_le.2 (by simpa using hdiv)
  exact Int.toNat_of_nonpos hceil

/-- `while (a > bound) a -= p`. -/
def descend {K : Type} [Field K] [LinearOrder K] [IsStrictOrderedRing K] [FloorRing K] {p : K} (hp : 0 < p)
    (bound a : K) : K :=
  if bound < a then descend hp bound (a - p) else a
termination_by ⌈(a - bound) / p⌉.toNat
decreasing_by
  next h => exact toNat_ceil_lt hp (by ring) (sub_pos.2 h)

/-- `while (a < bound) a += p`. -/
def ascend {K : Type} [Field K] [LinearOrder K] [IsStrictOrderedRing K] [FloorRing K] {p : K} (hp : 0 < p)
    (bound a : K) : K :=
  if a < bound then ascend hp bound (a + p) else a
termination_by ⌈(bound - a) / p⌉.toNat
decreasing_by
  next h => exact toNat_ceil_lt hp (by ring) (sub_pos.2 h)

/-- `std::trunc`. -/
def trunc {K : Type} [Field K] [LinearOrder K] [FloorRing K] (x : K) : ℤ := if 0 ≤ x then ⌊x⌋ else ⌈x⌉

/-- `std::fmod`, for a divisor that is not 0. -/
def fmod {K : Type} [Field K] [LinearOrder K] [FloorRing K] (x y : K) : K := x - trunc (x / y) * y

variable {K : Type} [Field K] [LinearOrder K] [IsStrictOrderedRing K] [FloorRing K] {p : K} (hp : 0 < p)
include hp

section
variable {bound a : K}

theorem descend_of_le (h : a ≤ bound) : descend hp bound a = a := by
  rw [descend, if_neg (not_lt.2 h)]

theorem ascend_of_le (h : bound ≤ a) : ascend hp bound a = a := by
  rw [ascend, if_neg (not_lt.2 h)]

end

variable (bound a : K)

theorem descend_modEq : descend hp bound a ≡ a [PMOD p] := by
  induction a using descend.induct hp bound with
  | case1 a h ih =>
    rw [descend, if_pos h]
    exact ih.trans (AddCommGroup.modEq_iff_zsmul.2 ⟨1, by simp⟩)
  | case2 a h => rw [descend, if_neg h]

theorem descend_le : descend hp bound a ≤ bound := by
  induction a using descend.induct hp bound with
  | case1 a h ih => rwa [descend, if_pos h]
  | case2 a h =>
    rw [descend, if_neg h]
    exact not_lt.1 h

theorem lt_descend {bound a : K} (h : bound < a) : bound - p < descend hp bound a := by
  induction a using descend.induct hp bound with
  | case1 a _ ih =>
    rw [descend, if_pos h]
    rcases lt_or_ge bound (a - p) with hlt | hge
    · exact ih hlt
    · rw [descend_of_le hp hge]
      linarith
  | case2 a hle => exact absurd h hle

theorem descend_ends : Ends (bound < ·) (· - p) a ⌈(a - bound) / p⌉.toNat (descend hp bound a) := by
  induction a using descend.induct hp bound with
  | case1 a h ih =>
    have hrounds : ⌈(a - bound) / p⌉.toNat = ⌈(a - p - bound) / p⌉.toNat + 1 :=
      toNat_ceil_eq hp (by ring) (sub_pos.2 h)
    rw [descend, if_pos h, hrounds]
    exact .round h ih
  | case2 a h =>
    rw [descend, if_neg h, toNat_ceil_eq_zero hp (sub_nonpos.2 (not_lt.1 h))]
    exact .skip h

theorem ascend_ends : Ends (· < bound) (· + p) a ⌈(bound - a) / p⌉.toNat (ascend hp bound a) := by
  induction a using ascend.induct hp bound with
  | case1 a h ih =>
    have hrounds : ⌈(bound - a) / p⌉.toNat = ⌈(bound - (a + p)) / p⌉.toNat + 1 :=
      toNat_ceil_eq hp (by ring) (sub_pos.2 h)
    rw [ascend, if_pos h, hrounds]
    exact .round h ih
  | case2 a h =>
    rw [ascend, if_neg h, toNat_ceil_eq_zero hp (sub_nonpos.2 (not_lt.1 h))]
    exact .skip h

/-- Adding to a number is subtracting from its negative. -/
theorem ascend_eq_neg : ascend hp bound a = -descend hp (-bound) (-a) := by
  induction a using ascend.induct hp bound with
  | case1 a h ih => rw [ascend, if_pos h, descend, if_pos (neg_lt_neg h), ih, neg_add, sub_eq_add_neg]
  | case2 a h => rw [ascend, if_neg h, descend, if_neg (fun h' => h (neg_lt_neg_iff.1 h')), neg_neg]

theorem ascend_modEq : ascend hp bound a ≡ a [PMOD p] := by
  rw [ascend_eq_neg]
  simpa using (descend_modEq hp (-bound) (-a)).neg

theorem le_ascend : bound ≤ ascend hp bound a := by
  rw [ascend_eq_neg]
  exact le_neg_of_le_neg (descend_le hp (-bound) (-a))

theorem ascend_lt {bound a : K} (h : a < bound) : ascend hp bound a < bound + p := by
  rw [ascend_eq_neg]
  have := lt_descend hp (neg_lt_neg h)
  linarith

section
variable {bound a bound' : K}

theorem lt_descend_of_lt (h : bound' < a) (hbound : bound' ≤ bound - p) : bound' < descend hp bound a := by
  rcases lt_or_ge bound a with hgt | hle
  · exact hbound.trans_lt (lt_descend hp hgt)
  · rwa [descend_of_le hp hle]

theorem ascend_lt_of_lt (h : a < bound') (hbound : bound + p ≤ bound') : ascend hp bound a < bound' := by
  rcases lt_or_ge a bound with hlt | hge
  · exact (ascend_lt hp hlt).trans_le hbound
  · rwa [ascend_of_le hp hge]

theorem ascend_le_of_le (h : a ≤ bound') (hbound : bound + p ≤ bound') : ascend hp bound a ≤ bound' := by
  rcases lt_or_ge a bound with hlt | hge
  · exact ((ascend_lt hp hlt).trans_le hbound).le
  · rwa [ascend_of_le hp hge]

end

omit [FloorRing K] in
/-- Congruent numbers that are less than a period apart are equal. -/
theorem eq_of_modEq {a b : K} (h : a ≡ b [PMOD p]) (hab : |a - b| < p) : a = b := by
  obtain ⟨n, hn⟩ := AddCommGroup.modEq_iff_zsmul.1 h
  have habs : |(n : K)| < 1 := by
    rw [abs_sub_comm, ← hn, zsmul_eq_mul, abs_mul, abs_of_pos hp] at hab
    exact (mul_lt_iff_lt_one_left hp).1 hab
  have hzero : n = 0 := Int.abs_lt_one_iff.1 (by exact_mod_cast habs)
  rw [hzero, zero_zsmul] at hn
  linarith

omit [FloorRing K] in
/-- Within half a period no congruent number is nearer to 0. -/
theorem abs_le_of_modEq {a b : K} (h : a ≡ b [PMOD p]) (hb : 2 * |b| ≤ p) : |b| ≤ |a| := by
  rcases lt_or_ge |a - b| p with hlt | hge
  · rw [eq_of_modEq hp h hlt]
  · have := abs_sub a b
    linarith

omit hp [IsStrictOrderedRing K] in
theorem fmod_modEq (x p : K) : fmod x p ≡ x [PMOD p] :=
  AddCommGroup.modEq_iff_zsmul.2 ⟨trunc (x / p), by rw [fmod, zsmul_eq_mul, sub_sub_cancel]⟩

theorem fmod_eq {x : K} (h : 0 ≤ x) : fmod x p = Int.fract (x / p) * p := by
  rw [fmod, trunc, if_pos (div_nonneg h hp.le), Int.fract, sub_mul, div_mul_cancel₀ x hp.ne']

theorem fmod_nonneg {x : K} (h : 0 ≤ x) : 0 ≤ fmod x p := by
  rw [fmod_eq hp h]
  exact mul_nonneg (Int.fract_nonneg _) hp.le

theorem fmod_lt {x : K} (h : 0 ≤ x) : fmod x p < p := by
  rw [fmod_eq hp h]
  exact mul_lt_of_lt_one_left hp (Int.fract_lt_one _)

end Wrap
