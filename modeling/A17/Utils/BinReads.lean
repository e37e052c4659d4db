import A17.Utils.BinSearch

/-!
# The bins that are read

Every move of the search reads the bin beyond the one it goes to, before the loop asks whether there is one. So a
search that moves to the first bin reads the one before it, and a search that moves to the last bin the one after it.
The distances to the bins fall up to the nearest one and rise from there, also after rounding: where the search goes
can be told from the first two bins and the last two (`reads_in_bounds_iff`).
-/

namespace A17.Utils
open Binary64

/-! ### The mantissa of any interval -/

theorem guess_le : ∀ b < 65, guess.getD b 0 ≤ 19 := by decide

theorem baseTwoDigits_lt {x : UInt64} (h : x ≠ 0) : baseTwoDigits x < 65 := by
  have hne : x.toNat ≠ 0 := fun h0 => h (UInt64.toNat_inj.1 h0)
  have hlog : x.toNat.log2 < 64 := (Nat.log2_lt hne).2 x.toNat_lt
  rw [baseTwoDigits_eq h]
  omega

theorem baseTenDigits_pos {x : UInt64} (h : x ≠ 0) : 0 < baseTenDigits x := by
  rw [baseTenDigits]
  rcases Nat.eq_zero_or_pos (guess.getD (baseTwoDigits x) 0) with h0 | hpos
  · have hone : x ≥ kTenToThe.getD 0 0 := by
      rw [ge_iff_le, UInt64.le_iff_toNat_le]
      exact Nat.pos_of_ne_zero fun hz => h (UInt64.toNat_inj.1 hz)
    rw [h0, if_pos hone]
    exact Nat.one_pos
  · omega

/-- From `2 ^ 63` on the guess is 19, and the last entry of the table of powers is not one. -/
theorem baseTenDigits_of_ge {x : UInt64} (h : 2 ^ 63 ≤ x.toNat) :
    baseTenDigits x = if x = 0xffffffffffffffff then 20 else 19 := by
  have hne : x ≠ 0 := by
    rintro rfl
    exact absurd h (by decide)
  have hlog : x.toNat.log2 = 63 := (Nat.log2_eq_iff (by omega)).2 ⟨h, x.toNat_lt⟩
  have hge : x ≥ kTenToThe.getD 19 0 ↔ x = 0xffffffffffffffff := by
    rw [ge_iff_le, UInt64.le_iff_toNat_le, ← UInt64.toNat_inj]
    have hx := x.toNat_lt
    show 18446744073709551615 ≤ x.toNat ↔ x.toNat = 18446744073709551615
    omega
  rw [baseTenDigits, baseTwoDigits_eq hne, hlog]
  show 19 + (if x ≥ kTenToThe.getD 19 0 then 1 else 0) = _
  simp only [hge]
  split <;> rfl

theorem ofRat_div_le {a b c : ℚ} (hb : 0 < b) (hc : ofRat c = c) (h : a ≤ c * b) : ofRat (a / b) ≤ c :=
  (ofRat_mono ((div_le_iff₀ hb).2 h)).trans_eq hc

theorem one_le_ofRat_div {a b : ℚ} (hb : 0 < b) (h : b ≤ a) : 1 ≤ ofRat (a / b) := by
  rw [← ofRat_one]
  exact ofRat_mono ((one_le_div hb).2 h)

theorem mantissa_bounds {interval : UInt64} (h : interval ≠ 0) :
    1 ≤ mantissa ofRat interval ∧ mantissa ofRat interval ≤ 19 := by
  have hnineteen : ofRat 19 = 19 := by decide +kernel
  rcases Nat.lt_or_ge interval.toNat (2 ^ 63) with hlt | hge
  · obtain ⟨k, hk⟩ := exists_decade h hlt
    refine ⟨hk.one_le_mantissa, ?_⟩
    have hhigh : ofRat interval.toNat ≤ (10 ^ (k + 1) : Nat) := by
      rw [← ofRat_ten_pow (k + 1) (by have := hk.le; omega)]
      exact ofRat_mono (by exact_mod_cast hk.high.le)
    have hpos : (0 : ℚ) < (10 ^ k : Nat) := by positivity
    rw [hk.mantissa_eq]
    refine ofRat_div_le hpos hnineteen (hhigh.trans ?_)
    rw [pow_succ, Nat.cast_mul]
    push_cast at hpos ⊢
    linarith
  · rw [mantissa, baseTenDigits_of_ge hge]
    split
    · -- divided by itself
      next htop =>
      have hexp : (kTenToThe.getD (20 - 1) 0).toNat = interval.toNat := by rw [htop]; rfl
      have hne : (interval.toNat : ℚ) ≠ 0 := by
        rw [Nat.cast_ne_zero]
        omega
      rw [hexp, div_self (ofRat_ne_zero hne), ofRat_one]
      norm_num
    · have hexp : ofRat (kTenToThe.getD (19 - 1) 0).toNat = 10 ^ 18 := by decide +kernel
      have hlow : 2 ^ 63 ≤ ofRat interval.toNat := by
        rw [← show ofRat (2 ^ 63) = 2 ^ 63 by decide +kernel]
        exact ofRat_mono (by exact_mod_cast hge)
      have hhigh : ofRat interval.toNat ≤ 2 ^ 64 := by
        rw [← show ofRat (2 ^ 64) = 2 ^ 64 by decide +kernel]
        exact ofRat_mono (by exact_mod_cast interval.toNat_lt.le)
      rw [hexp]
      constructor
      · exact one_le_ofRat_div (by norm_num) (le_trans (by norm_num) hlow)
      · exact ofRat_div_le (by norm_num) hnineteen (hhigh.trans (by norm_num))

/-! ### Where the search goes -/

section
variable {x p q p' q' : ℚ}

/-- Nearer to the first of two bins: then to the left of the second, and of any two after it the first is nearer. -/
theorem binDiff_lt_of_nearer_left (hx : 1 ≤ x) (hpq : p < q) (hle : q ≤ p') (hgap : p' + 1 / 4 ≤ q') (hq : q' ≤ 10)
    (h : |ofRat (x - p)| < |ofRat (x - q)|) : |ofRat (x - p')| < |ofRat (x - q')| := by
  have hxq : x < q := by
    by_contra hge
    rw [abs_ofRat, abs_ofRat, abs_of_nonneg (by linarith), abs_of_nonneg (by linarith)] at h
    exact absurd (ofRat_mono (show x - q ≤ x - p by linarith)) (not_le.2 h)
  rw [abs_ofRat, abs_ofRat, abs_of_neg (by linarith), abs_of_neg (by linarith)]
  exact ofRat_lt_of_gap (by linarith) (by linarith) (by linarith)

theorem binDiff_lt_of_nearer_right (hx : x ≤ 19) (hpq : p < q) (hp : 1 ≤ p') (hgap : p' + 1 / 4 ≤ q') (hle : q' ≤ p)
    (h : |ofRat (x - q)| < |ofRat (x - p)|) : |ofRat (x - q')| < |ofRat (x - p')| := by
  have hxp : p < x := by
    by_contra hge
    rw [abs_ofRat, abs_ofRat, abs_of_nonpos (by linarith), abs_of_nonpos (by linarith)] at h
    exact absurd (ofRat_mono (show -(x - p) ≤ -(x - q) by linarith)) (not_le.2 h)
  rw [abs_ofRat, abs_ofRat, abs_of_pos (by linarith), abs_of_pos (by linarith)]
  exact ofRat_lt_of_gap (by linarith) (by linarith) (by linarith)

end

section
variable {x : ℚ} {index j : Nat} (ht : Travel ofRat x index j)
include ht

/-- The first bin is reached from the right exactly if it is nearer than the second. -/
theorem Travel.first_iff (hx : 1 ≤ x) :
    j < index ∧ j = 0 ↔ 0 < index ∧ binDiff ofRat x 0 < binDiff ofRat x 1 := by
  constructor
  · rintro ⟨hlt, rfl⟩
    exact ⟨hlt, ht.pathLeft 1 Nat.one_pos hlt⟩
  · rintro ⟨hpos, hnear⟩
    have hj : j = 0 := by
      by_contra hj
      have hleft := ht.left (Nat.pos_of_ne_zero hj)
      obtain ⟨k, rfl⟩ := Nat.exists_eq_succ_of_ne_zero hj
      have hk := ht.le
      rw [Nat.cast_succ, add_sub_cancel_right] at hleft
      refine absurd hleft (not_le.2 ?_)
      rcases Nat.eq_zero_or_pos k with rfl | hkpos
      · exact hnear
      · exact binDiff_lt_of_nearer_left hx (binAt_lt_succ (k := 0) (by omega))
          (binAt_mono (j := 1) hkpos (by omega)) (bins_spec k (by omega)) (binAt_le_ten (by omega)) hnear
    exact ⟨by omega, hj⟩

theorem Travel.last_iff (hx : x ≤ 19) (hmax : binDiff ofRat x index ≤ doubleMax) :
    index < j ∧ j = 9 ↔ index < 9 ∧ binDiff ofRat x 9 < binDiff ofRat x 8 := by
  constructor
  · rintro ⟨hlt, rfl⟩
    exact ⟨hlt, ht.pathRight 8 (by omega) (by omega)⟩
  · rintro ⟨hlt, hnear⟩
    have hj : j = 9 := by
      by_contra hj
      have hk := ht.le
      have hright := ht.right hmax (by omega)
      refine absurd hright (not_le.2 ?_)
      rcases Nat.lt_or_ge j 8 with hj8 | hj8
      · exact binDiff_lt_of_nearer_right hx (binAt_lt_succ (k := 8) (by omega))
          (one_le_binAt (by omega)) (bins_spec j (by omega)) (binAt_mono (k := 8) hj8 (by omega)) hnear
      · obtain rfl : j = 8 := by omega
        exact hnear
    exact ⟨by omega, hj⟩

end

/-! ### Reads -/

theorem onTheWay_iff {index j : Nat} (hi : index ≤ 9) (hj : j ≤ 9) :
    (∀ i : Int, OnTheWay index j i → 0 ≤ i ∧ i ≤ 9) ↔ ¬ (j < index ∧ j = 0) ∧ ¬ (index < j ∧ j = 9) := by
  constructor
  · intro h
    constructor
    · rintro ⟨hlt, rfl⟩
      have := h (-1) (.inr (.inl (.inl ⟨by omega, by omega⟩)))
      omega
    · rintro ⟨hlt, rfl⟩
      have := h 10 (.inr (.inl (.inr ⟨by omega, by omega⟩)))
      omega
  · rintro ⟨hfirst, hlast⟩ i hread
    rcases hread with (rfl | ⟨_, rfl⟩ | ⟨_, rfl⟩) | (⟨_, _⟩ | ⟨_, _⟩) | rfl <;> omega

theorem binDiff_le_doubleMax {x : ℚ} (hx : 1 ≤ x) (hx' : x ≤ 19) {index : Nat} (hi : index ≤ 9) :
    binDiff ofRat x index ≤ doubleMax := by
  have hlow := one_le_binAt hi
  have hhigh := binAt_le_ten hi
  have hnineteen : ofRat 19 = 19 := by decide +kernel
  calc binDiff ofRat x index = ofRat |x - binAt ofRat index| := abs_ofRat _
    _ ≤ ofRat 19 := ofRat_mono (abs_le.2 ⟨by linarith, by linarith⟩)
    _ = 19 := hnineteen
    _ ≤ doubleMax := by decide +kernel

/-- The powers of ten are read in bounds whatever the interval. -/
theorem powerReads_le {interval : UInt64} (h : interval ≠ 0) (rnd : ℚ → ℚ) (index : Nat) :
    ∀ j ∈ (nearestIntervalBin rnd interval index).powerReads, 0 ≤ j ∧ j ≤ 19 := by
  have hguess := guess_le _ (baseTwoDigits_lt h)
  have hpos := baseTenDigits_pos h
  have hle : baseTenDigits interval ≤ guess.getD (baseTwoDigits interval) 0 + 1 := by
    rw [baseTenDigits]
    split <;> omega
  intro j hj
  rw [nearestIntervalBin, if_neg h] at hj
  simp only [List.mem_cons, List.not_mem_nil, or_false] at hj
  rcases hj with rfl | rfl <;> omega

/-- Both tables are read in bounds exactly if the interval is 0, or the search neither starts after the first bin with
that one nearer than the second, nor before the last bin with that one nearer than the second last. -/
theorem reads_in_bounds_iff (interval : UInt64) {index : Nat} (hi : index ≤ 9) :
    let bin := nearestIntervalBin ofRat interval index
    let x := mantissa ofRat interval
    ((∀ i ∈ bin.binReads, 0 ≤ i ∧ i ≤ 9) ∧ ∀ j ∈ bin.powerReads, 0 ≤ j ∧ j ≤ 19) ↔
      interval = 0 ∨ ¬ (0 < index ∧ binDiff ofRat x 0 < binDiff ofRat x 1) ∧
        ¬ (index < 9 ∧ binDiff ofRat x 9 < binDiff ofRat x 8) := by
  intro bin x
  by_cases h : interval = 0
  · have hbin : bin = ⟨0, index, [], []⟩ := if_pos h
    simp [hbin, h]
  obtain ⟨ht, hreads⟩ := nearestIntervalBin_travel ofRat h hi
  obtain ⟨hx, hx'⟩ := mantissa_bounds h
  have hmax := binDiff_le_doubleMax hx hx' hi
  rw [or_iff_right h, ← ht.first_iff hx, ← ht.last_iff hx' hmax, ← onTheWay_iff hi ht.le]
  constructor
  · rintro ⟨hbins, -⟩ i hread
    exact hbins i ((hreads i).2 hread)
  · intro hbins
    exact ⟨fun i hmem => hbins i ((hreads i).1 hmem), powerReads_le h ofRat index⟩

theorem reads_in_bounds_iff_two : 2 ≤ 9 ∧
    (((∀ i ∈ (nearestIntervalBin ofRat 1700 2).binReads, 0 ≤ i ∧ i ≤ 9) ∧
      ∀ j ∈ (nearestIntervalBin ofRat 1700 2).powerReads, 0 ≤ j ∧ j ≤ 19) ↔
      (1700 : UInt64) = 0 ∨
        ¬ (0 < 2 ∧ binDiff ofRat (mantissa ofRat 1700) 0 < binDiff ofRat (mantissa ofRat 1700) 1) ∧
          ¬ (2 < 9 ∧ binDiff ofRat (mantissa ofRat 1700) 9 < binDiff ofRat (mantissa ofRat 1700) 8)) :=
  ⟨by decide, reads_in_bounds_iff 1700 (by decide)⟩

/-- From the second bin to the first: the bin at index -1 is read. -/
theorem reads_before_first : ¬ ∀ (interval : UInt64) (index : Nat), index ≤ 9 →
    (∀ i ∈ (nearestIntervalBin ofRat interval index).binReads, 0 ≤ i ∧ i ≤ 9) ∧
      ∀ j ∈ (nearestIntervalBin ofRat interval index).powerReads, 0 ≤ j ∧ j ≤ 19 := by
  intro h
  have hread : -1 ∈ (nearestIntervalBin ofRat 1 1).binReads := by decide +kernel
  exact absurd ((h 1 1 (by decide)).1 _ hread).1 (by decide)

end A17.Utils
