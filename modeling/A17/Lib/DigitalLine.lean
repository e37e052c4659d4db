import Mathlib.Algebra.Order.Group.Unbundled.Abs
import Mathlib.Algebra.Order.Ring.Int
import Mathlib.Tactic.Linarith
import Mathlib.Tactic.Ring

/-!
# Lines on the integer grid

Of `l` steps along the main axis a line makes `m ≤ l` along another one. After `i` of them it is `count l m i` steps
far there, which is `m * i / l` to the nearest integer, a half rounded down. The error that is carried from step to
step tells when the next one is due (`error_pos_iff`).
-/

namespace DigitalLine
variable {l m i k : Int}

def count (l m i : Int) : Int := (2 * (m * i) + l - 1) / (2 * l)

/-- What is carried before step `i` when `k` steps have been made. -/
def error (l m i k : Int) : Int := 2 * m - l + 2 * (m * i) - 2 * (l * k)

theorem le_count_iff (hl : 0 < l) : k ≤ count l m i ↔ 2 * (l * k) < 2 * (m * i) + l := by
  rw [count, Int.le_ediv_iff_mul_le (by omega), show k * (2 * l) = 2 * (l * k) by ring]
  omega

theorem count_lt_iff (hl : 0 < l) : count l m i < k ↔ 2 * (m * i) + l ≤ 2 * (l * k) := by
  rw [← not_le, le_count_iff hl, not_lt]

theorem eq_count_iff (hl : 0 < l) :
    k = count l m i ↔ 2 * (m * i) - l ≤ 2 * (l * k) ∧ 2 * (l * k) < 2 * (m * i) + l := by
  have hlt := count_lt_iff (m := m) (i := i) (k := k + 1) hl
  rw [show 2 * (l * (k + 1)) = 2 * (l * k) + 2 * l by ring] at hlt
  have hle := le_count_iff (m := m) (i := i) (k := k) hl
  omega

theorem count_zero (hl : 0 ≤ l) : count l m 0 = 0 := by
  unfold count
  rcases hl.eq_or_lt with rfl | hl
  · simp
  · rw [mul_zero, mul_zero, zero_add, Int.ediv_eq_zero_of_lt (by omega) (by omega)]

theorem count_main (hl : 0 < l) : count l l i = i := by
  rw [eq_comm, eq_count_iff hl]
  constructor <;> omega

theorem count_last (hl : 0 < l) : count l m l = m := by
  rw [eq_comm, eq_count_iff hl, mul_comm m l]
  constructor <;> omega

theorem count_mono (hl : 0 < l) (hm : 0 ≤ m) {j : Int} (hij : i ≤ j) : count l m i ≤ count l m j := by
  have h := (le_count_iff (m := m) (i := i) hl).1 le_rfl
  rw [le_count_iff hl]
  have := mul_le_mul_of_nonneg_left hij hm
  omega

theorem count_nonneg (hl : 0 < l) (hm : 0 ≤ m) (hi : 0 ≤ i) : 0 ≤ count l m i := by
  rw [← count_zero (m := m) hl.le]
  exact count_mono hl hm hi

theorem count_le (hl : 0 < l) (hm : 0 ≤ m) (hi : i ≤ l) : count l m i ≤ m :=
  (count_mono hl hm hi).trans (count_last hl).le

/-- The next step is due when the error is positive. -/
theorem count_succ (hl : 0 < l) (hm : 0 ≤ m) (hml : m ≤ l) :
    count l m (i + 1) = if error l m i (count l m i) > 0 then count l m i + 1 else count l m i := by
  obtain ⟨hlow, hhigh⟩ := (eq_count_iff (m := m) (i := i) hl).1 rfl
  rw [eq_comm, eq_count_iff hl, mul_add, mul_one]
  unfold error
  split
  · rw [mul_add l, mul_one]
    constructor <;> omega
  · constructor <;> omega

theorem error_succ : error l m (i + 1) k = error l m i k + 2 * m := by
  unfold error
  ring

theorem error_count_succ : error l m i (k + 1) = error l m i k - 2 * l := by
  unfold error
  ring

/-- The points of the line are within half a step of it. -/
theorem within_half (hl : 0 < l) : |2 * (l * count l m i - i * m)| ≤ l := by
  obtain ⟨hlow, hhigh⟩ := (eq_count_iff (m := m) (i := i) hl).1 rfl
  rw [abs_le, mul_sub, mul_comm i m]
  constructor <;> omega

end DigitalLine
