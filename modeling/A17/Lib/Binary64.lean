import Mathlib.Algebra.Order.Field.Power
import Mathlib.Algebra.Order.Field.Rat
import Mathlib.Data.Rat.Floor
import Mathlib.Tactic.FieldSimp

/-!
# Double precision

The values of `double` arithmetic as rationals: an operation is the exact one followed by `ofRat`, to 53
significant bits and half to even. The exponent is not bounded, so there is no overflow and there are no
subnormal numbers. Rounding is monotone and odd, stays between two powers of two, and is off by at most one part
in 2^53.
-/

namespace Binary64

def roundHalfEven (x : ℚ) : ℤ :=
  let r := x - ⌊x⌋
  if r < 1 / 2 ∨ (r = 1 / 2 ∧ ⌊x⌋ % 2 = 0) then ⌊x⌋ else ⌊x⌋ + 1

/-- `x * 2 ^ s`. -/
def scale (x : ℚ) (s : ℤ) : ℚ := x * (2 ^ s.toNat : ℕ) / (2 ^ (-s).toNat : ℕ)

/-- The place of the leading bit. -/
def exponent (x : ℚ) : ℤ :=
  let e : ℤ := Nat.log2 x.num.natAbs - Nat.log2 x.den
  if scale 1 e ≤ |x| then e else e - 1

def ofRat (x : ℚ) : ℚ :=
  let s := 52 - exponent x
  scale (roundHalfEven (scale x s)) (-s)

@[simp] theorem roundHalfEven_intCast (n : ℤ) : roundHalfEven n = n := by
  simp [roundHalfEven]

theorem scale_of_nonneg (x : ℚ) {s : ℤ} (h : 0 ≤ s) : scale x s = x * (2 ^ s.toNat : ℕ) := by
  rw [scale, show (-s).toNat = 0 by omega]
  simp

theorem scale_neg_of_nonneg (x : ℚ) {s : ℤ} (h : 0 ≤ s) : scale x (-s) = x / (2 ^ s.toNat : ℕ) := by
  rw [scale, show (-s).toNat = 0 by omega, neg_neg]
  simp

theorem exponent_intCast_le {n : ℤ} (h : |n| < 2 ^ 53) : exponent n ≤ 52 := by
  have hlog : Nat.log2 n.natAbs ≤ 52 := by
    rcases Nat.eq_zero_or_pos n.natAbs with h0 | h0
    · rw [h0]; decide
    · have hlt : n.natAbs < 2 ^ 53 := by rw [Int.abs_eq_natAbs] at h; omega
      have := (Nat.log2_lt (by omega)).2 hlt
      omega
  have hden : (Nat.log2 1 : ℤ) = 0 := by decide
  simp only [exponent, Rat.num_intCast, Rat.den_intCast, hden, sub_zero]
  by_cases hle : scale 1 (Nat.log2 n.natAbs) ≤ |(n : ℚ)|
  · rw [if_pos hle]; omega
  · rw [if_neg hle]; omega

/-- Integers of up to 53 bits are doubles. -/
theorem ofRat_intCast {n : ℤ} (h : |n| < 2 ^ 53) : ofRat n = n := by
  have hs : 0 ≤ 52 - exponent n := by
    have := exponent_intCast_le h
    omega
  have hint : (n : ℚ) * (2 ^ (52 - exponent n).toNat : ℕ) = ((n * (2 ^ (52 - exponent n).toNat : ℕ) : ℤ) : ℚ) := by
    push_cast
    rfl
  have hpos : ((2 ^ (52 - exponent n).toNat : ℕ) : ℚ) ≠ 0 := by positivity
  rw [ofRat, scale_of_nonneg _ hs, hint, roundHalfEven_intCast, scale_neg_of_nonneg _ hs, ← hint]
  field_simp

/-! ### Rounding to an integer -/

theorem abs_roundHalfEven_sub_le (x : ℚ) : |roundHalfEven x - x| ≤ 1 / 2 := by
  have hfloor := Int.floor_le x
  have hlt := Int.lt_floor_add_one x
  rw [roundHalfEven, abs_le]
  split
  · next h =>
    rcases h with h | ⟨h, -⟩ <;> constructor <;> linarith
  · next h =>
    have hhalf : 1 / 2 ≤ x - ⌊x⌋ := by
      by_contra hlow
      exact h (.inl (not_le.1 hlow))
    push_cast
    constructor <;> linarith

theorem floor_le_roundHalfEven (x : ℚ) : ⌊x⌋ ≤ roundHalfEven x := by
  rw [roundHalfEven]
  split <;> omega

theorem roundHalfEven_le_floor_add_one (x : ℚ) : roundHalfEven x ≤ ⌊x⌋ + 1 := by
  rw [roundHalfEven]
  split <;> omega

theorem roundHalfEven_mono {x y : ℚ} (h : x ≤ y) : roundHalfEven x ≤ roundHalfEven y := by
  rcases (Int.floor_mono h).lt_or_eq with hlt | heq
  · have hx := roundHalfEven_le_floor_add_one x
    have hy := floor_le_roundHalfEven y
    omega
  · -- with the same floor, what rounds `y` down rounds `x` down
    rw [roundHalfEven, roundHalfEven, heq]
    split
    · split <;> omega
    · next hx =>
      rw [if_neg]
      rintro (hy | ⟨hy, heven⟩)
      · exact hx (.inl (by linarith))
      · rcases (show x - ⌊y⌋ ≤ 1 / 2 by linarith).lt_or_eq with hlow | htie
        · exact hx (.inl hlow)
        · exact hx (.inr ⟨htie, heven⟩)

theorem roundHalfEven_neg (x : ℚ) : roundHalfEven (-x) = -roundHalfEven x := by
  by_cases hint : x = ⌊x⌋
  · rw [hint, ← Int.cast_neg, roundHalfEven_intCast, roundHalfEven_intCast]
  · have hfloor : ⌊-x⌋ = -⌊x⌋ - 1 := by
      have hlow := lt_of_le_of_ne (Int.floor_le x) (Ne.symm hint)
      have hhigh := Int.lt_floor_add_one x
      rw [Int.floor_eq_iff]
      push_cast
      constructor <;> linarith
    rw [roundHalfEven, roundHalfEven, hfloor]
    push_cast
    rcases lt_trichotomy (x - ⌊x⌋) (1 / 2) with hlow | htie | hhigh
    · rw [if_neg, if_pos (.inl hlow)]
      · omega
      · rintro (h | ⟨h, -⟩) <;> linarith
    · -- half way, and one of the two neighbours is even
      have htie' : -x - (-(⌊x⌋ : ℚ) - 1) = 1 / 2 := by linarith
      rw [htie, htie']
      simp only [lt_irrefl, false_or, true_and]
      split <;> split <;> omega
    · rw [if_pos (.inl (by linarith)), if_neg]
      · omega
      · rintro (h | ⟨h, -⟩) <;> linarith

/-! ### The exponent -/

theorem scale_eq (x : ℚ) (s : ℤ) : scale x s = x * 2 ^ s := by
  rcases Int.le_total 0 s with h | h
  · rw [scale_of_nonneg x h]
    obtain ⟨n, rfl⟩ := Int.eq_ofNat_of_zero_le h
    simp
  · obtain ⟨n, rfl⟩ := Int.exists_eq_neg_ofNat h
    rw [scale_neg_of_nonneg x (Int.natCast_nonneg n)]
    simp [div_eq_mul_inv]

theorem exponent_neg (x : ℚ) : exponent (-x) = exponent x := by
  simp [exponent]

theorem two_zpow_log2 {n : ℕ} (h : n ≠ 0) : (2 : ℚ) ^ (n.log2 : ℤ) ≤ n ∧ (n : ℚ) < 2 ^ ((n.log2 : ℤ) + 1) := by
  constructor
  · exact_mod_cast Nat.log2_self_le h
  · exact_mod_cast Nat.lt_log2_self

theorem abs_eq_natAbs_div (x : ℚ) : |x| = (x.num.natAbs : ℚ) / x.den := by
  conv_lhs => rw [← Rat.num_div_den x]
  rw [abs_div, Nat.cast_natAbs, Int.cast_abs, Nat.abs_cast]

theorem exponent_spec {x : ℚ} (h : x ≠ 0) : (2 : ℚ) ^ exponent x ≤ |x| ∧ |x| < 2 ^ (exponent x + 1) := by
  obtain ⟨hp, hp'⟩ := two_zpow_log2 (Int.natAbs_ne_zero.2 (Rat.num_ne_zero.2 h))
  obtain ⟨hq, hq'⟩ := two_zpow_log2 x.den_ne_zero
  have hden : (0 : ℚ) < x.den := by exact_mod_cast x.den_pos
  have two : (2 : ℚ) ≠ 0 := by norm_num
  rw [exponent, scale_eq, one_mul]
  generalize (x.num.natAbs.log2 : ℤ) = a at hp hp' ⊢
  generalize (x.den.log2 : ℤ) = b at hq hq' ⊢
  split
  · next hle =>
    refine ⟨hle, ?_⟩
    calc |x| = (x.num.natAbs : ℚ) / x.den := abs_eq_natAbs_div x
      _ < 2 ^ (a + 1) / x.den := div_lt_div_of_pos_right hp' hden
      _ ≤ 2 ^ (a + 1) / 2 ^ b := div_le_div_of_nonneg_left (by positivity) (by positivity) hq
      _ = 2 ^ (a - b + 1) := by rw [← zpow_sub₀ two]; congr 1; omega
  · next hlt =>
    refine ⟨?_, by rw [sub_add_cancel]; exact not_le.1 hlt⟩
    calc (2 : ℚ) ^ (a - b - 1) = 2 ^ a / 2 ^ (b + 1) := by rw [← zpow_sub₀ two]; congr 1; omega
      _ ≤ 2 ^ a / x.den := div_le_div_of_nonneg_left (by positivity) hden hq'.le
      _ ≤ (x.num.natAbs : ℚ) / x.den := div_le_div_of_nonneg_right hp hden.le
      _ = |x| := (abs_eq_natAbs_div x).symm

/-! ### Rounding -/

/-- The weight of the last of 53 bits. -/
def ulp (x : ℚ) : ℚ := 2 ^ (exponent x - 52)

theorem ulp_pos (x : ℚ) : 0 < ulp x := by
  unfold ulp
  positivity

theorem ofRat_eq (x : ℚ) : ofRat x = roundHalfEven (x / ulp x) * ulp x := by
  rw [ofRat, scale_eq, scale_eq, ulp, div_eq_mul_inv, ← zpow_neg, neg_sub, neg_sub]

theorem ofRat_neg (x : ℚ) : ofRat (-x) = -ofRat x := by
  have hulp : ulp (-x) = ulp x := by rw [ulp, exponent_neg, ulp]
  rw [ofRat_eq, ofRat_eq, hulp, neg_div, roundHalfEven_neg, Int.cast_neg, neg_mul]

@[simp] theorem ofRat_zero : ofRat 0 = 0 := by
  rw [ofRat_eq, zero_div]
  have h0 : roundHalfEven 0 = 0 := by exact_mod_cast roundHalfEven_intCast 0
  rw [h0, Int.cast_zero, zero_mul]

@[simp] theorem ofRat_one : ofRat 1 = 1 := by exact_mod_cast ofRat_intCast (n := 1) (by norm_num)

theorem zpow_exponent (x : ℚ) : (2 : ℚ) ^ exponent x = 2 ^ 52 * ulp x := by
  rw [ulp, zpow_sub₀ (by norm_num)]
  norm_num
  field_simp

theorem zpow_exponent_succ (x : ℚ) : (2 : ℚ) ^ (exponent x + 1) = 2 ^ 53 * ulp x := by
  rw [zpow_add_one₀ (by norm_num), zpow_exponent]
  ring

/-- Rounding does not leave the interval between two powers of two. -/
theorem ofRat_bounds {x : ℚ} (h : 0 < x) :
    (2 : ℚ) ^ exponent x ≤ ofRat x ∧ ofRat x ≤ 2 ^ (exponent x + 1) := by
  obtain ⟨hlow, hhigh⟩ := exponent_spec h.ne'
  rw [abs_of_pos h, zpow_exponent] at hlow
  rw [abs_of_pos h, zpow_exponent_succ] at hhigh
  have hlow' : ((2 ^ 52 : ℤ) : ℚ) ≤ x / ulp x := by
    rw [le_div_iff₀ (ulp_pos x)]
    exact_mod_cast hlow
  have hhigh' : x / ulp x ≤ ((2 ^ 53 : ℤ) : ℚ) := by
    rw [div_le_iff₀ (ulp_pos x)]
    exact_mod_cast hhigh.le
  have hround := roundHalfEven_mono hlow'
  have hround' := roundHalfEven_mono hhigh'
  rw [roundHalfEven_intCast] at hround hround'
  rw [zpow_exponent, zpow_exponent_succ, ofRat_eq]
  constructor
  · refine mul_le_mul_of_nonneg_right ?_ (ulp_pos x).le
    exact_mod_cast hround
  · refine mul_le_mul_of_nonneg_right ?_ (ulp_pos x).le
    exact_mod_cast hround'

theorem ofRat_pos {x : ℚ} (h : 0 < x) : 0 < ofRat x :=
  lt_of_lt_of_le (zpow_pos (by norm_num) _) (ofRat_bounds h).1

theorem ofRat_nonneg {x : ℚ} (h : 0 ≤ x) : 0 ≤ ofRat x := by
  rcases h.eq_or_lt with rfl | h
  · rw [ofRat_zero]
  · exact (ofRat_pos h).le

theorem abs_ofRat (x : ℚ) : |ofRat x| = ofRat |x| := by
  rcases le_total 0 x with h | h
  · rw [abs_of_nonneg h, abs_of_nonneg (ofRat_nonneg h)]
  · have hneg : 0 ≤ ofRat (-x) := ofRat_nonneg (by linarith)
    rw [abs_of_nonpos h, ofRat_neg, abs_of_nonpos (by rw [ofRat_neg] at hneg; linarith)]

theorem ofRat_ne_zero {x : ℚ} (h : x ≠ 0) : ofRat x ≠ 0 := by
  rw [← abs_pos, abs_ofRat]
  exact ofRat_pos (abs_pos.2 h)

theorem ofRat_mono_of_pos {x y : ℚ} (hx : 0 < x) (h : x ≤ y) : ofRat x ≤ ofRat y := by
  have hy : 0 < y := hx.trans_le h
  have hexp : exponent x ≤ exponent y := by
    obtain ⟨hlow, -⟩ := exponent_spec hx.ne'
    obtain ⟨-, hhigh⟩ := exponent_spec hy.ne'
    rw [abs_of_pos hx] at hlow
    rw [abs_of_pos hy] at hhigh
    have hlt : (2 : ℚ) ^ exponent x < 2 ^ (exponent y + 1) := (hlow.trans h).trans_lt hhigh
    have := (zpow_lt_zpow_iff_right₀ (by norm_num)).1 hlt
    omega
  rcases hexp.lt_or_eq with hlt | heq
  · calc ofRat x ≤ 2 ^ (exponent x + 1) := (ofRat_bounds hx).2
      _ ≤ 2 ^ exponent y := zpow_le_zpow_right₀ (by norm_num) (by omega)
      _ ≤ ofRat y := (ofRat_bounds hy).1
  · have hulp : ulp x = ulp y := by rw [ulp, heq, ulp]
    rw [ofRat_eq, ofRat_eq, hulp]
    refine mul_le_mul_of_nonneg_right ?_ (ulp_pos y).le
    exact_mod_cast roundHalfEven_mono (div_le_div_of_nonneg_right h (ulp_pos y).le)

theorem ofRat_mono {x y : ℚ} (h : x ≤ y) : ofRat x ≤ ofRat y := by
  rcases lt_trichotomy x 0 with hx | rfl | hx
  · rcases lt_or_ge y 0 with hy | hy
    · have := ofRat_mono_of_pos (neg_pos.2 hy) (neg_le_neg h)
      rw [ofRat_neg, ofRat_neg] at this
      linarith
    · have := ofRat_pos (neg_pos.2 hx)
      rw [ofRat_neg] at this
      linarith [ofRat_nonneg hy]
  · rw [ofRat_zero]
    exact ofRat_nonneg h
  · exact ofRat_mono_of_pos hx h

theorem abs_ofRat_sub_le (x : ℚ) : |ofRat x - x| ≤ |x| / 2 ^ 53 := by
  by_cases h : x = 0
  · simp [h]
  obtain ⟨hlow, -⟩ := exponent_spec h
  rw [zpow_exponent] at hlow
  have hulp := ulp_pos x
  have hsub : ofRat x - x = (roundHalfEven (x / ulp x) - x / ulp x) * ulp x := by
    rw [ofRat_eq]
    field_simp
  have hround := abs_roundHalfEven_sub_le (x / ulp x)
  rw [hsub, abs_mul, abs_of_pos hulp, le_div_iff₀ (by norm_num)]
  nlinarith

end Binary64
