import Mathlib.Data.List.GetD
import A17.Utils.BinSearch

/-!
# The nearest bin overall

With exact arithmetic, the search ends in a bin that no neighbour is nearer than. The bins increase, so none of the
same decade is nearer; and the bins of the other decades lie beyond the first and the last one of this decade, between
which the interval is (`nearest_overall`).
-/

namespace A17.Utils

/-! ### Distances to increasing points -/

section
variable {K : Type} [Field K] [LinearOrder K] [IsStrictOrderedRing K] {x p q r : K}

/-- If the nearer of `p < q` is `q`, what lies before `p` is no nearer. -/
theorem abs_sub_le_of_left (hpq : p < q) (hrp : r ≤ p) (h : |x - q| ≤ |x - p|) : |x - q| ≤ |x - r| := by
  have hpx : p ≤ x := by
    by_contra hlt
    rw [abs_of_neg (by linarith), abs_of_neg (by linarith)] at h
    linarith
  rw [abs_of_nonneg (show 0 ≤ x - p by linarith)] at h
  rw [abs_of_nonneg (show 0 ≤ x - r by linarith)]
  linarith

theorem abs_sub_le_of_right (hpq : p < q) (hqr : q ≤ r) (h : |x - p| ≤ |x - q|) : |x - p| ≤ |x - r| := by
  have hxq : x ≤ q := by
    by_contra hlt
    rw [abs_of_pos (by linarith), abs_of_pos (by linarith)] at h
    linarith
  rw [abs_of_nonpos (show x - q ≤ 0 by linarith)] at h
  rw [abs_of_nonpos (show x - r ≤ 0 by linarith)]
  linarith

end

/-! ### One decade -/

/-- `kIntervalBins`, the quotients not rounded. -/
def exactBins : List ℚ := [1, 4 / 3, 5 / 3, 2, 5 / 2, 3, 4, 5, 20 / 3, 10]

theorem kIntervalBins_id : kIntervalBins id = exactBins := by decide +kernel

theorem binAt_id {j : Nat} (hj : j ≤ 9) : binAt id j ∈ exactBins := by
  rw [binAt, if_neg (by omega), kIntervalBins_id, Int.toNat_natCast]
  have hlt : j < exactBins.length := Nat.lt_succ_of_le hj
  rw [List.getD_eq_getElem _ _ hlt]
  exact List.getElem_mem hlt

theorem mem_exactBins {b : ℚ} (h : b ∈ exactBins) : ∃ i : Nat, i ≤ 9 ∧ b = binAt id i := by
  obtain ⟨i, hi, rfl⟩ := List.getElem_of_mem h
  refine ⟨i, Nat.le_of_lt_succ hi, ?_⟩
  rw [binAt, if_neg (by omega), kIntervalBins_id, Int.toNat_natCast, List.getD_eq_getElem _ _ hi]

theorem exactBins_bounds : ∀ b ∈ exactBins, 1 ≤ b ∧ b ≤ 10 := by decide +kernel

theorem binAt_id_lt_succ : ∀ k < 9, binAt id (k : Nat) < binAt id (k + 1 : Nat) := by decide +kernel

theorem binAt_id_mono {j k : Nat} (h : j ≤ k) (hk : k ≤ 9) : binAt id j ≤ binAt id k := by
  induction k, h using Nat.le_induction with
  | base => exact le_refl _
  | succ k _ ih => exact (ih (by omega)).trans (binAt_id_lt_succ k (by omega)).le

/-- No bin is nearer than one that its neighbours are not nearer than. -/
theorem Travel.nearest {x : ℚ} {index j : Nat} (ht : Travel id x index j) (hmax : binDiff id x index ≤ doubleMax)
    {i : Nat} (hi : i ≤ 9) : |x - binAt id j| ≤ |x - binAt id i| := by
  have hj := ht.le
  rcases Nat.lt_trichotomy i j with hlt | rfl | hgt
  · obtain ⟨k, rfl⟩ : ∃ k, j = k + 1 := ⟨j - 1, by omega⟩
    have hleft := ht.left (Nat.succ_pos k)
    rw [Nat.cast_succ, add_sub_cancel_right, ← Nat.cast_succ] at hleft
    exact abs_sub_le_of_left (binAt_id_lt_succ k (by omega)) (binAt_id_mono (by omega) (by omega)) hleft
  · exact le_refl _
  · exact abs_sub_le_of_right (binAt_id_lt_succ j (by omega)) (binAt_id_mono hgt hi) (ht.right hmax (by omega))

/-! ### All decades -/

section
variable {interval : UInt64} {k : Nat}

theorem Decade.mantissa_id (h : Decade interval k) : (interval.toNat : ℚ) = mantissa id interval * 10 ^ k := by
  have hpos : (0 : ℚ) < 10 ^ k := by positivity
  rw [mantissa, h.power]
  simp only [id]
  push_cast
  rw [div_mul_cancel₀ _ hpos.ne']

/-- The bins of the other decades are at most the first or at least the last one of the decade. -/
theorem Decade.exists_nearer (h : Decade interval k) {b : ℚ} (hb : b ∈ exactBins) (l : Nat) :
    ∃ b' ∈ exactBins, |(interval.toNat : ℚ) - b' * 10 ^ k| ≤ |(interval.toNat : ℚ) - b * 10 ^ l| := by
  obtain ⟨hone, hten⟩ := exactBins_bounds b hb
  have hlow : (10 : ℚ) ^ k ≤ interval.toNat := by exact_mod_cast h.low
  have hhigh : (interval.toNat : ℚ) ≤ 10 ^ (k + 1) := by exact_mod_cast h.high.le
  rcases Nat.lt_trichotomy l k with hlt | rfl | hgt
  · refine ⟨1, by decide +kernel, ?_⟩
    have hle : b * 10 ^ l ≤ 10 ^ k := by
      calc b * 10 ^ l ≤ 10 * 10 ^ l := by gcongr
        _ = 10 ^ (l + 1) := by ring
        _ ≤ 10 ^ k := pow_le_pow_right₀ (by norm_num) hlt
    rw [one_mul, abs_of_nonneg (by linarith), abs_of_nonneg (by linarith)]
    linarith
  · exact ⟨b, hb, le_refl _⟩
  · refine ⟨10, by decide +kernel, ?_⟩
    have hle : 10 * 10 ^ k ≤ b * 10 ^ l := by
      calc (10 : ℚ) * 10 ^ k = 10 ^ (k + 1) := by ring
        _ ≤ 10 ^ l := pow_le_pow_right₀ (by norm_num) hgt
        _ = 1 * 10 ^ l := (one_mul _).symm
        _ ≤ b * 10 ^ l := by gcongr
    rw [pow_succ] at hhigh
    rw [abs_of_nonpos (by linarith), abs_of_nonpos (by linarith)]
    linarith

theorem Decade.mantissa_le (h : Decade interval k) : 1 ≤ mantissa id interval ∧ mantissa id interval ≤ 10 := by
  have hpos : (0 : ℚ) < 10 ^ k := by positivity
  have hlow : 1 * (10 : ℚ) ^ k ≤ interval.toNat := by rw [one_mul]; exact_mod_cast h.low
  have hhigh : (interval.toNat : ℚ) ≤ 10 * 10 ^ k := by
    rw [← pow_succ']
    exact_mod_cast h.high.le
  rw [h.mantissa_id] at hlow hhigh
  exact ⟨le_of_mul_le_mul_right hlow hpos, le_of_mul_le_mul_right hhigh hpos⟩

/-- The bin at the index that is found, scaled and cut off. -/
theorem Decade.value_id (h : Decade interval k) {index : Nat} (hi : index ≤ 9) :
    ((nearestIntervalBin id interval index).value.toNat : Int) =
      ⌊binAt id (nearestIntervalBin id interval index).index * 10 ^ k⌋ := by
  have hj := (nearestIntervalBin_travel id h.ne_zero hi).1.le
  obtain ⟨hone, hten⟩ := exactBins_bounds _ (binAt_id hj)
  set b := binAt id (nearestIntervalBin id interval index).index with hb
  have hpos : (0 : ℚ) < 10 ^ k := by positivity
  have hnonneg : 0 ≤ ⌊b * 10 ^ k⌋ := Int.floor_nonneg.2 (mul_nonneg (by linarith) hpos.le)
  have hlt : ⌊b * 10 ^ k⌋ < 2 ^ 64 := by
    have hle : b * 10 ^ k ≤ 10 ^ 19 := by
      calc b * 10 ^ k ≤ 10 * 10 ^ 18 := by
            gcongr
            · norm_num
            · exact h.le
        _ = 10 ^ 19 := by norm_num
    rw [Int.floor_lt]
    refine lt_of_le_of_lt hle ?_
    norm_num
  have hvalue := nearestIntervalBin_value id h.ne_zero index
  rw [h.power, ← hb] at hvalue
  simp only [id] at hvalue
  push_cast at hvalue
  rw [hvalue, UInt64.toNat_ofNat']
  omega

end

/-- Whatever bin the search starts from, what it returns is the nearest bin of all decades, cut off to an integer. -/
theorem nearest_overall {interval : UInt64} (h0 : interval ≠ 0) (hlt : interval.toNat < 2 ^ 63) {index : Nat}
    (hi : index ≤ 9) :
    let bin := nearestIntervalBin id interval index
    bin.index ≤ 9 ∧ ∃ b ∈ exactBins, ∃ k : Nat, (bin.value.toNat : Int) = ⌊b * 10 ^ k⌋ ∧
      ∀ b' ∈ exactBins, ∀ k' : Nat,
        |(interval.toNat : ℚ) - b * 10 ^ k| ≤ |(interval.toNat : ℚ) - b' * 10 ^ k'| := by
  intro bin
  obtain ⟨k, hk⟩ := exists_decade h0 hlt
  obtain ⟨ht, -⟩ := nearestIntervalBin_travel id h0 hi
  obtain ⟨hx, hx'⟩ := hk.mantissa_le
  have hmax : binDiff id (mantissa id interval) index ≤ doubleMax := by
    obtain ⟨hone, hten⟩ := exactBins_bounds _ (binAt_id hi)
    have hdiff : |mantissa id interval - binAt id index| ≤ 9 := abs_le.2 ⟨by linarith, by linarith⟩
    exact hdiff.trans (by decide +kernel)
  refine ⟨ht.le, binAt id bin.index, binAt_id ht.le, k, hk.value_id hi, fun b' hb' k' => ?_⟩
  obtain ⟨b'', hb'', hle⟩ := hk.exists_nearer hb' k'
  refine le_trans ?_ hle
  obtain ⟨i, hi', rfl⟩ := mem_exactBins hb''
  have hpos : (0 : ℚ) < 10 ^ k := by positivity
  rw [hk.mantissa_id, ← sub_mul, ← sub_mul, abs_mul, abs_mul]
  exact mul_le_mul_of_nonneg_right (ht.nearest hmax hi') (abs_nonneg _)

theorem nearest_overall_1472 : (1472 : UInt64) ≠ 0 ∧ (nearestIntervalBin id 1472 0).value = 1333 ∧
    ∃ b ∈ exactBins, ∃ k : Nat, ((nearestIntervalBin id 1472 0).value.toNat : Int) = ⌊b * 10 ^ k⌋ ∧
      ∀ b' ∈ exactBins, ∀ k' : Nat,
        |((1472 : UInt64).toNat : ℚ) - b * 10 ^ k| ≤ |((1472 : UInt64).toNat : ℚ) - b' * 10 ^ k'| := by
  obtain ⟨-, h⟩ := nearest_overall (show (1472 : UInt64) ≠ 0 by decide) (by decide) (Nat.zero_le 9)
  exact ⟨by decide, by decide +kernel, h⟩

end A17.Utils
