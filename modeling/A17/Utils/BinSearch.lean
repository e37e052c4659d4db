import A17.Utils.NearestIntervalBin

/-!
# The bin that is found

What `NearestIntervalBin` returns, in terms of its interval: the power of ten is the one below the interval
(`baseTenDigits_spec`), and the search ends in a bin that is no worse than the one before it
(`nearestIntervalBin_travel`). Rounding is monotone, so a smaller interval of the same decade never gets a larger bin
than the search from the last bin finds for the larger one (`Decade.value_mono`).
-/

namespace A17.Utils

/-! ### Digits -/

theorem clz_eq {x : UInt32} (h : x ≠ 0) : clz x + x.toNat.log2 = 31 := by
  have hne : x.toNat ≠ 0 := fun h0 => h (UInt32.toNat_inj.1 h0)
  have hlt : x.toNat.log2 < 32 := (Nat.log2_lt hne).2 x.toNat_lt
  rw [clz]
  omega

theorem toNat_hi (x : UInt64) : (x >>> 32).toUInt32.toNat = x.toNat / 2 ^ 32 := by
  have hx := x.toNat_lt
  rw [UInt64.toNat_toUInt32, UInt64.toNat_shiftRight]
  simp only [UInt64.reduceToNat, Nat.reduceMod, Nat.shiftRight_eq_div_pow]
  omega

theorem toNat_lo (x : UInt64) : (x &&& 0xffffffff).toUInt32.toNat = x.toNat % 2 ^ 32 := by
  rw [UInt64.toNat_toUInt32, UInt64.toNat_and]
  simp only [UInt64.reduceToNat]
  rw [show 4294967295 = 2 ^ 32 - 1 by norm_num, Nat.and_two_pow_sub_one_eq_mod, Nat.mod_mod]

theorem log2_eq_log2_hi {n : Nat} (h : n / 2 ^ 32 ≠ 0) : n.log2 = (n / 2 ^ 32).log2 + 32 := by
  have hlow := Nat.log2_self_le h
  have hup := Nat.lt_log2_self (n := n / 2 ^ 32)
  rw [Nat.log2_eq_iff (by omega)]
  generalize (n / 2 ^ 32).log2 = l at hlow hup ⊢
  constructor
  · rw [pow_add]
    omega
  · rw [Nat.add_right_comm, pow_add]
    omega

theorem baseTwoDigits_eq {x : UInt64} (h : x ≠ 0) : baseTwoDigits x = x.toNat.log2 + 1 := by
  have hne : x.toNat ≠ 0 := fun h0 => h (UInt64.toNat_inj.1 h0)
  have hhi := toNat_hi x
  have hlo := toNat_lo x
  rw [baseTwoDigits]
  split
  · next h0 =>
    have hsmall : x.toNat / 2 ^ 32 = 0 := by rw [← hhi, h0]; rfl
    rw [show x.toNat % 2 ^ 32 = x.toNat by omega] at hlo
    have hlo0 : (x &&& 0xffffffff).toUInt32 ≠ 0 := fun h0' => hne (by rw [← hlo, h0']; rfl)
    have hclz := clz_eq hlo0
    rw [hlo] at hclz
    rw [if_pos hlo0]
    omega
  · next h0 =>
    have hclz := clz_eq h0
    rw [hhi] at hclz
    have hlog := log2_eq_log2_hi fun hz => h0 (UInt32.toNat_inj.1 (hhi.trans hz))
    omega

theorem guess_spec : ∀ b < 63, let g := guess.getD (b + 1) 0
    g ≤ 18 ∧ (0 < g → 10 ^ (g - 1) ≤ 2 ^ b) ∧ 2 ^ (b + 1) ≤ 10 ^ (g + 1) := by
  decide

theorem kTenToThe_spec : ∀ k < 19, (kTenToThe.getD k 0).toNat = 10 ^ k := by
  decide

/-- The number of decimal digits. -/
theorem baseTenDigits_spec {x : UInt64} (h : x ≠ 0) (hlt : x.toNat < 2 ^ 63) :
    ∃ k ≤ 18, baseTenDigits x = k + 1 ∧ 10 ^ k ≤ x.toNat ∧ x.toNat < 10 ^ (k + 1) := by
  have hne : x.toNat ≠ 0 := fun h0 => h (UInt64.toNat_inj.1 h0)
  have hlog : x.toNat.log2 < 63 := (Nat.log2_lt hne).2 hlt
  obtain ⟨hg, hlow, hhigh⟩ := guess_spec _ hlog
  have hself := Nat.log2_self_le hne
  have hup := Nat.lt_log2_self (n := x.toNat)
  rw [baseTenDigits, baseTwoDigits_eq h]
  generalize guess.getD (x.toNat.log2 + 1) 0 = g at hg hlow hhigh ⊢
  have hpow := kTenToThe_spec g (by omega)
  have hge : x ≥ kTenToThe.getD g 0 ↔ 10 ^ g ≤ x.toNat := by
    rw [ge_iff_le, UInt64.le_iff_toNat_le, hpow]
  by_cases hx : 10 ^ g ≤ x.toNat
  · rw [if_pos (hge.2 hx)]
    exact ⟨g, hg, rfl, hx, hup.trans_le hhigh⟩
  · rw [if_neg (fun h' => hx (hge.1 h'))]
    have hpos : 0 < g := by
      rcases Nat.eq_zero_or_pos g with rfl | hpos
      · omega
      · exact hpos
    refine ⟨g - 1, by omega, by omega, (hlow hpos).trans hself, ?_⟩
    rw [show g - 1 + 1 = g by omega]
    omega

/-! ### The search -/

section
variable (rnd : ℚ → ℚ) (x : ℚ)

/-- From `index` to the left, as long as the next bin is nearer. -/
theorem searchLeft_spec (index : Nat) (reads : List Int) :
    let j := (searchLeft rnd x index (binDiff rnd x index) (binDiff rnd x (index - 1)) reads).1
    j ≤ index ∧ (0 < j → binDiff rnd x j ≤ binDiff rnd x (j - 1)) ∧
      ∀ k : Nat, j < k → k ≤ index → binDiff rnd x (k - 1) < binDiff rnd x k := by
  induction index generalizing reads with
  | zero =>
    refine ⟨Nat.le_refl _, fun h => absurd h (Nat.lt_irrefl 0), fun k hk hk' => ?_⟩
    rw [searchLeft] at hk
    dsimp only at hk
    omega
  | succ index ih =>
    rw [searchLeft, show (((index + 1 : Nat) : Int) - 1) = index by omega]
    split
    · next hlt =>
      obtain ⟨hle, hlast, hpath⟩ := ih (reads ++ [(index - 1 : Int)])
      refine ⟨Nat.le_succ_of_le hle, hlast, fun k hk hk' => ?_⟩
      rcases Nat.lt_or_ge index k with hki | hki
      · obtain rfl : k = index + 1 := by omega
        rw [show (((index + 1 : Nat) : Int) - 1) = index by omega]
        exact hlt
      · exact hpath k hk hki
    · next hge =>
      refine ⟨Nat.le_refl _, fun _ => ?_, fun k hk hk' => absurd hk (by dsimp only; omega)⟩
      rw [show (((index + 1 : Nat) : Int) - 1) = index by omega]
      exact not_lt.1 hge

/-- To the right in the same way; `room` bins are left. -/
theorem searchRight_spec (room index : Nat) (reads : List Int) :
    let j := (searchRight rnd x room index (binDiff rnd x index) (binDiff rnd x (index + 1)) reads).1
    index ≤ j ∧ j ≤ index + room ∧ (j < index + room → binDiff rnd x j ≤ binDiff rnd x (j + 1)) ∧
      ∀ k : Nat, index ≤ k → k < j → binDiff rnd x (k + 1) < binDiff rnd x k := by
  induction room generalizing index reads with
  | zero =>
    refine ⟨Nat.le_refl _, Nat.le_refl _, fun h => absurd h (Nat.lt_irrefl _), fun k hk hk' => ?_⟩
    rw [searchRight] at hk'
    dsimp only at hk'
    omega
  | succ room ih =>
    rw [searchRight]
    split
    · next hlt =>
      have hnext := ih (index + 1) (reads ++ [(index + 2 : Int)])
      rw [Nat.cast_add_one, show (index : Int) + 1 + 1 = index + 2 by omega] at hnext
      obtain ⟨hge, hle, hend, hpath⟩ := hnext
      refine ⟨by omega, by omega, fun h => hend (by omega), fun k hk hk' => ?_⟩
      rcases hk.lt_or_eq with hik | rfl
      · exact hpath k hik hk'
      · exact hlt
    · next hge =>
      refine ⟨Nat.le_refl _, Nat.le_add_right _ _, fun _ => not_lt.1 hge, fun k hk hk' => ?_⟩
      exact absurd hk' (not_lt.2 hk)

/-- The bins that moving to the left reads: those two to the left of where it was. -/
theorem mem_searchLeft (index : Nat) (diff diffLeft : ℚ) (reads : List Int) (i : Int) :
    let r := searchLeft rnd x index diff diffLeft reads
    r.1 ≤ index ∧ (i ∈ r.2 ↔ i ∈ reads ∨ (r.1 : Int) - 1 ≤ i ∧ i + 2 ≤ index) := by
  induction index generalizing diff diffLeft reads with
  | zero =>
    rw [searchLeft]
    dsimp only
    refine ⟨Nat.le_refl _, ⟨Or.inl, fun h => h.resolve_right (by omega)⟩⟩
  | succ index ih =>
    rw [searchLeft]
    split
    · obtain ⟨hle, hmem⟩ := ih diffLeft (binDiff rnd x (index - 1)) (reads ++ [(index - 1 : Int)])
      refine ⟨Nat.le_succ_of_le hle, hmem.trans ?_⟩
      rw [List.mem_append, List.mem_singleton, or_assoc]
      refine or_congr_right ?_
      push_cast
      omega
    · dsimp only
      refine ⟨Nat.le_refl _, ⟨Or.inl, fun h => h.resolve_right ?_⟩⟩
      push_cast
      omega

theorem mem_searchRight (room index : Nat) (diff diffRight : ℚ) (reads : List Int) (i : Int) :
    let r := searchRight rnd x room index diff diffRight reads
    index ≤ r.1 ∧ (i ∈ r.2 ↔ i ∈ reads ∨ (index : Int) + 2 ≤ i ∧ i ≤ r.1 + 1) := by
  induction room generalizing index diff diffRight reads with
  | zero =>
    rw [searchRight]
    dsimp only
    refine ⟨Nat.le_refl _, ⟨Or.inl, fun h => h.resolve_right (by omega)⟩⟩
  | succ room ih =>
    rw [searchRight]
    split
    · obtain ⟨hge, hmem⟩ := ih (index + 1) diffRight (binDiff rnd x (index + 2)) (reads ++ [(index + 2 : Int)])
      refine ⟨Nat.le_of_succ_le hge, hmem.trans ?_⟩
      rw [List.mem_append, List.mem_singleton, or_assoc]
      refine or_congr_right ?_
      push_cast
      omega
    · dsimp only
      exact ⟨Nat.le_refl _, ⟨Or.inl, fun h => h.resolve_right (by omega)⟩⟩

/-- `interval / (double)exp`. -/
def mantissa (interval : UInt64) : ℚ :=
  rnd (rnd interval.toNat / rnd (kTenToThe.getD (baseTenDigits interval - 1) 0).toNat)

end

/-- The search from `index` ends in a bin that is no worse than its neighbours, and it gets there through bins that
are each better. -/
structure Travel (rnd : ℚ → ℚ) (x : ℚ) (index j : Nat) : Prop where
  le : j ≤ 9
  left : 0 < j → binDiff rnd x j ≤ binDiff rnd x (j - 1)
  right : binDiff rnd x index ≤ doubleMax → j < 9 → binDiff rnd x j ≤ binDiff rnd x (j + 1)
  pathLeft : ∀ k : Nat, j < k → k ≤ index → binDiff rnd x (k - 1) < binDiff rnd x k
  pathRight : ∀ k : Nat, index ≤ k → k < j → binDiff rnd x (k + 1) < binDiff rnd x k

/-- The bins read on the way from `index` to `j`: the first three, those the moves read ahead, and the last. -/
def OnTheWay (index j : Nat) (i : Int) : Prop :=
  (i = index ∨ 0 < index ∧ i = index - 1 ∨ index < 9 ∧ i = index + 1) ∨
    ((j : Int) - 1 ≤ i ∧ i + 2 ≤ index ∨ (index : Int) + 2 ≤ i ∧ i ≤ j + 1) ∨ i = j

theorem mem_firstReads (index : Nat) (i : Int) :
    i ∈ [(index : Int)] ++ (if index > 0 then [(index - 1 : Int)] else []) ++
        (if index < 9 then [(index + 1 : Int)] else []) ↔
      i = index ∨ 0 < index ∧ i = index - 1 ∨ index < 9 ∧ i = index + 1 := by
  split <;> split <;> simp [*]

/-- What the search adds to the first reads, and the bin that is returned. -/
theorem mem_reads_iff_onTheWay {index : Nat} {reads : List Int} {r : Nat × List Int}
    (hfirst : ∀ i : Int, i ∈ reads ↔ i = index ∨ 0 < index ∧ i = index - 1 ∨ index < 9 ∧ i = index + 1)
    (hsearch : ∀ i : Int, i ∈ r.2 ↔ i ∈ reads ∨
      ((r.1 : Int) - 1 ≤ i ∧ i + 2 ≤ index ∨ (index : Int) + 2 ≤ i ∧ i ≤ r.1 + 1)) (i : Int) :
    i ∈ r.2 ++ [(r.1 : Int)] ↔ OnTheWay index r.1 i := by
  rw [OnTheWay, List.mem_append, List.mem_singleton, hsearch, hfirst, or_assoc]

namespace Travel
variable {rnd : ℚ → ℚ} {x : ℚ} {index : Nat}

theorem stay (hi : index ≤ 9) (hleft : 0 < index → binDiff rnd x index ≤ binDiff rnd x (index - 1))
    (hright : binDiff rnd x index ≤ doubleMax → index < 9 → binDiff rnd x index ≤ binDiff rnd x (index + 1)) :
    Travel rnd x index index :=
  ⟨hi, hleft, hright, fun _ hk hk' => absurd hk (not_lt.2 hk'), fun _ hk hk' => absurd hk' (not_lt.2 hk)⟩

theorem searchLeft (hi : index ≤ 9) (hpos : 0 < index) (hlt : binDiff rnd x (index - 1) < binDiff rnd x index)
    (reads : List Int) : Travel rnd x index
      (searchLeft rnd x index (binDiff rnd x index) (binDiff rnd x (index - 1)) reads).1 := by
  obtain ⟨hle, hlast, hpath⟩ := searchLeft_spec rnd x index reads
  refine ⟨hle.trans hi, hlast, fun _ _ => ?_, hpath, fun k hk hk' => absurd hk' (by omega)⟩
  rcases hle.lt_or_eq with hmoved | hstayed
  · have hstep := hpath _ (Nat.lt_succ_self _) hmoved
    rw [Nat.cast_succ, add_sub_cancel_right] at hstep
    exact hstep.le
  · rw [hstayed] at hlast
    exact absurd hlt (not_lt.2 (hlast hpos))

theorem searchRight (hi : index < 9) (hhere : 0 < index → binDiff rnd x index ≤ binDiff rnd x (index - 1))
    (reads : List Int) : Travel rnd x index
      (searchRight rnd x (9 - index) index (binDiff rnd x index) (binDiff rnd x (index + 1)) reads).1 := by
  obtain ⟨hge, hle, hend, hpath⟩ := searchRight_spec rnd x (9 - index) index reads
  refine ⟨by omega, fun hj => ?_, fun _ hj => hend (by omega), fun k hk hk' => absurd hk (by omega), hpath⟩
  rcases hge.lt_or_eq with hmoved | hstayed
  · have hlast := hpath _ (Nat.le_sub_one_of_lt hmoved) (Nat.sub_one_lt_of_lt hmoved)
    rw [Nat.cast_pred hj, sub_add_cancel] at hlast
    exact hlast.le
  · rw [← hstayed] at hj ⊢
    exact hhere hj

end Travel

section
variable (rnd : ℚ → ℚ) {interval : UInt64} (h : interval ≠ 0)
include h

theorem nearestIntervalBin_value (index : Nat) : (nearestIntervalBin rnd interval index).value =
    UInt64.ofNat ⌊rnd (binAt rnd (nearestIntervalBin rnd interval index).index *
      rnd (kTenToThe.getD (baseTenDigits interval - 1) 0).toNat)⌋.toNat := by
  rw [nearestIntervalBin, if_neg h]

theorem nearestIntervalBin_travel {index : Nat} (hi : index ≤ 9) :
    let bin := nearestIntervalBin rnd interval index
    Travel rnd (mantissa rnd interval) index bin.index ∧
      ∀ i : Int, i ∈ bin.binReads ↔ OnTheWay index bin.index i := by
  have hsize : kIntervalBinsSize - 1 = 9 := rfl
  rw [nearestIntervalBin, if_neg h]
  dsimp only
  set x := mantissa rnd interval with hx
  rw [mantissa] at hx
  rw [← hx, hsize]
  set reads := [(index : Int)] ++ (if index > 0 then [(index - 1 : Int)] else []) ++
    if index < 9 then [(index + 1 : Int)] else []
  by_cases hleft : (if index > 0 then binDiff rnd x (index - 1) else doubleMax) < binDiff rnd x index
  · rw [if_pos hleft]
    refine ⟨?_, mem_reads_iff_onTheWay (mem_firstReads index) fun i => ?_⟩
    · rcases Nat.eq_zero_or_pos index with rfl | hpos
      · exact .stay hi (fun h0 => absurd h0 (Nat.lt_irrefl 0)) fun hmax => absurd hleft (not_lt.2 hmax)
      · rw [if_pos hpos] at hleft ⊢
        exact .searchLeft hi hpos hleft reads
    · obtain ⟨hle, hmem⟩ := mem_searchLeft rnd x index (binDiff rnd x index)
        (if index > 0 then binDiff rnd x (index - 1) else doubleMax) reads i
      rw [hmem]
      exact or_congr_right ⟨Or.inl, fun h => h.resolve_right (by omega)⟩
  have hhere : 0 < index → binDiff rnd x index ≤ binDiff rnd x (index - 1) := by
    intro hpos
    rw [if_pos hpos] at hleft
    exact not_lt.1 hleft
  rw [if_neg hleft]
  by_cases hright : (if index < 9 then binDiff rnd x (index + 1) else doubleMax) < binDiff rnd x index
  · rw [if_pos hright]
    refine ⟨?_, mem_reads_iff_onTheWay (mem_firstReads index) fun i => ?_⟩
    · rcases hi.lt_or_eq with hlt | rfl
      · rw [if_pos hlt]
        exact .searchRight hlt hhere reads
      · exact .stay hi hhere fun _ h9 => absurd h9 (Nat.lt_irrefl 9)
    · obtain ⟨hge, hmem⟩ := mem_searchRight rnd x (9 - index) index (binDiff rnd x index)
        (if index < 9 then binDiff rnd x (index + 1) else doubleMax) reads i
      rw [hmem]
      exact or_congr_right ⟨Or.inr, fun h => h.resolve_left (by omega)⟩
  · rw [if_neg hright]
    refine ⟨.stay hi hhere fun _ hlt => ?_, mem_reads_iff_onTheWay (mem_firstReads index) fun i => ?_⟩
    · rw [if_pos hlt] at hright
      exact not_lt.1 hright
    · dsimp only
      exact ⟨Or.inl, fun h => h.resolve_right (by omega)⟩

end

/-! ### Bins of doubles -/

section
open Binary64

theorem bins_spec : ∀ k < 9, binAt ofRat (k : Nat) + 1 / 4 ≤ binAt ofRat (k + 1 : Nat) := by decide +kernel

theorem binAt_mono {j k : Nat} (h : j ≤ k) (hk : k ≤ 9) : binAt ofRat j ≤ binAt ofRat k := by
  induction k, h using Nat.le_induction with
  | base => exact le_refl _
  | succ k _ ih =>
    have hstep := bins_spec k (by omega)
    linarith [ih (by omega)]

theorem binAt_lt_succ {k : Nat} (hk : k < 9) : binAt ofRat k < binAt ofRat (k + 1 : Nat) := by
  linarith [bins_spec k hk]

theorem one_le_binAt {j : Nat} (h : j ≤ 9) : 1 ≤ binAt ofRat j := binAt_mono (Nat.zero_le j) h

theorem binAt_le_ten {j : Nat} (h : j ≤ 9) : binAt ofRat j ≤ 10 := binAt_mono h (Nat.le_refl 9)

/-- Numbers of this size that are a quarter apart are still apart when they are rounded. -/
theorem ofRat_lt_of_gap {a b : ℚ} (ha : 0 ≤ a) (hgap : a + 1 / 4 ≤ b) (hb : b ≤ 2 ^ 10) : ofRat a < ofRat b := by
  have ha' := abs_ofRat_sub_le a
  have hb' := abs_ofRat_sub_le b
  rw [abs_of_nonneg ha, abs_le] at ha'
  rw [abs_of_pos (show 0 < b by linarith), abs_le] at hb'
  have hsmall : a / 2 ^ 53 + b / 2 ^ 53 < 1 / 4 := by
    rw [← add_div, div_lt_iff₀ (by norm_num)]
    linarith
  linarith [ha'.2, hb'.1]

/-- What is nearer to the smaller of two bins stays nearer to it when it gets smaller. -/
theorem binDiff_lt_of_le {x y p q : ℚ} (hx : 1 ≤ x) (hxy : x ≤ y) (hgap : p + 1 / 4 ≤ q) (hq : q ≤ 10)
    (h : |ofRat (y - p)| < |ofRat (y - q)|) : |ofRat (x - p)| < |ofRat (x - q)| := by
  rw [abs_ofRat, abs_ofRat] at h ⊢
  have hnear : |y - p| < |y - q| := by
    by_contra hle
    exact absurd (ofRat_mono (not_lt.1 hle)) (not_le.2 h)
  have hyq : y < q := by
    by_contra hle
    rw [abs_of_nonneg (by linarith), abs_of_nonneg (by linarith)] at hnear
    linarith
  rw [abs_of_neg (show y - q < 0 by linarith)] at h
  rw [abs_of_neg (show x - q < 0 by linarith)]
  rcases le_or_gt p x with hpx | hpx
  · -- between the bins both distances move the right way
    rw [abs_of_nonneg (by linarith)] at h ⊢
    calc ofRat (x - p) ≤ ofRat (y - p) := ofRat_mono (by linarith)
      _ < ofRat (-(y - q)) := h
      _ ≤ ofRat (-(x - q)) := ofRat_mono (by linarith)
  · -- below both the distances differ by more than they are rounded
    rw [abs_of_neg (by linarith), neg_sub, neg_sub]
    exact ofRat_lt_of_gap (by linarith) (by linarith) (by linarith)

/-- A smaller number ends up at most where a larger one does that is searched for from the last bin. -/
theorem index_le_of_le {x y : ℚ} (hx : 1 ≤ x) (hxy : x ≤ y) {j j' : Nat} (hj : j ≤ 9)
    (hlast : 0 < j → binDiff ofRat x j ≤ binDiff ofRat x (j - 1))
    (hpath : ∀ k : Nat, j' < k → k ≤ 9 → binDiff ofRat y (k - 1) < binDiff ofRat y k) : j ≤ j' := by
  by_contra hlt
  obtain ⟨k, rfl⟩ : ∃ k, j = k + 1 := ⟨j - 1, by omega⟩
  have hcast : ((k + 1 : Nat) : Int) - 1 = (k : Nat) := by omega
  have hy := hpath (k + 1) (not_le.1 hlt) hj
  have hx' := hlast (Nat.succ_pos k)
  rw [hcast] at hy hx'
  exact absurd (binDiff_lt_of_le hx hxy (bins_spec k (by omega)) (binAt_le_ten hj) hy) (not_lt.2 hx')

/-! ### The value -/

theorem ofRat_ten_pow : ∀ k < 20, ofRat ((10 ^ k : Nat) : ℚ) = (10 ^ k : Nat) := by decide +kernel

theorem toNat_floor_mono {x y : ℚ} (h : x ≤ y) : ⌊x⌋.toNat ≤ ⌊y⌋.toNat := Int.toNat_le_toNat (Int.floor_mono h)

/-- A bin that is scaled by a power of ten lies between that power and the next. -/
theorem scaled_bounds {j k : Nat} (hk : k ≤ 18) (hj : j ≤ 9) :
    10 ^ k ≤ ⌊ofRat (binAt ofRat j * (10 ^ k : Nat))⌋.toNat ∧
      ⌊ofRat (binAt ofRat j * (10 ^ k : Nat))⌋.toNat ≤ 10 ^ (k + 1) := by
  have hfloor : ∀ n : Nat, ⌊(n : ℚ)⌋.toNat = n := by
    intro n
    rw [Int.floor_natCast, Int.toNat_natCast]
  have hlow : ((10 ^ k : Nat) : ℚ) ≤ ofRat (binAt ofRat j * (10 ^ k : Nat)) := by
    conv_lhs => rw [← ofRat_ten_pow k (by omega)]
    exact ofRat_mono (le_mul_of_one_le_left (by positivity) (one_le_binAt hj))
  have hhigh : ofRat (binAt ofRat j * (10 ^ k : Nat)) ≤ (10 ^ (k + 1) : Nat) := by
    rw [← ofRat_ten_pow (k + 1) (by omega), pow_succ, Nat.mul_comm, Nat.cast_mul]
    exact ofRat_mono (mul_le_mul_of_nonneg_right (binAt_le_ten hj) (by positivity))
  constructor
  · rw [← hfloor (10 ^ k)]
    exact toNat_floor_mono hlow
  · rw [← hfloor (10 ^ (k + 1))]
    exact toNat_floor_mono hhigh

/-- The interval and the power of ten that goes with it. -/
structure Decade (interval : UInt64) (k : Nat) : Prop where
  le : k ≤ 18
  low : 10 ^ k ≤ interval.toNat
  high : interval.toNat < 10 ^ (k + 1)
  power : (kTenToThe.getD (baseTenDigits interval - 1) 0).toNat = 10 ^ k

theorem exists_decade {interval : UInt64} (h : interval ≠ 0) (hlt : interval.toNat < 2 ^ 63) :
    ∃ k, Decade interval k := by
  obtain ⟨k, hk, hdigits, hlow, hhigh⟩ := baseTenDigits_spec h hlt
  refine ⟨k, hk, hlow, hhigh, ?_⟩
  rw [hdigits, Nat.add_sub_cancel]
  exact kTenToThe_spec k (by omega)

namespace Decade
variable {a b : UInt64} {k l : Nat}

theorem mantissa_eq (h : Decade a k) : mantissa ofRat a = ofRat (ofRat a.toNat / (10 ^ k : Nat)) := by
  rw [mantissa, h.power, ofRat_ten_pow k (by have := h.le; omega)]

theorem one_le_mantissa (h : Decade a k) : 1 ≤ mantissa ofRat a := by
  have hpos : (0 : ℚ) < (10 ^ k : Nat) := by positivity
  have hle : ((10 ^ k : Nat) : ℚ) ≤ ofRat a.toNat := by
    rw [← ofRat_ten_pow k (by have := h.le; omega)]
    exact ofRat_mono (by exact_mod_cast h.low)
  rw [h.mantissa_eq, ← ofRat_one]
  refine ofRat_mono ?_
  rwa [le_div_iff₀ hpos, one_mul]

theorem mantissa_mono (ha : Decade a k) (hb : Decade b k) (hab : a.toNat ≤ b.toNat) :
    mantissa ofRat a ≤ mantissa ofRat b := by
  rw [ha.mantissa_eq, hb.mantissa_eq]
  refine ofRat_mono (div_le_div_of_nonneg_right (ofRat_mono ?_) (by positivity))
  exact_mod_cast hab

theorem le_of_le (ha : Decade a k) (hb : Decade b l) (hab : a.toNat ≤ b.toNat) : k ≤ l := by
  have hlt : 10 ^ k < 10 ^ (l + 1) := (ha.low.trans hab).trans_lt hb.high
  have := (Nat.pow_lt_pow_iff_right (by norm_num)).1 hlt
  omega

theorem ne_zero (h : Decade a k) : a ≠ 0 := by
  rintro rfl
  have hlow := h.low
  have hpos : 0 < 10 ^ k := by positivity
  exact absurd hlow (not_le.2 hpos)

/-- The bin at the index that is found, scaled; it fits into 64 bits. -/
theorem value_eq (h : Decade a k) {i : Nat} (hi : i ≤ 9) : (nearestIntervalBin ofRat a i).value.toNat =
    ⌊ofRat (binAt ofRat (nearestIntervalBin ofRat a i).index * (10 ^ k : Nat))⌋.toNat := by
  have hj := (nearestIntervalBin_travel ofRat h.ne_zero hi).1.le
  have hle := (scaled_bounds h.le hj).2
  have hpow : 10 ^ (k + 1) ≤ 10 ^ 19 := Nat.pow_le_pow_right (by norm_num) (Nat.succ_le_succ h.le)
  rw [nearestIntervalBin_value ofRat h.ne_zero, h.power, ofRat_ten_pow k (by have := h.le; omega), UInt64.toNat_ofNat']
  exact Nat.mod_eq_of_lt (hle.trans_lt (hpow.trans_lt (by norm_num)))

theorem value_bounds (h : Decade a k) {i : Nat} (hi : i ≤ 9) :
    10 ^ k ≤ (nearestIntervalBin ofRat a i).value.toNat ∧
      (nearestIntervalBin ofRat a i).value.toNat ≤ 10 ^ (k + 1) := by
  have hj := (nearestIntervalBin_travel ofRat h.ne_zero hi).1.le
  rw [h.value_eq hi]
  exact scaled_bounds h.le hj

/-- In one decade, a smaller interval gets no larger a bin than the search from the last bin finds for the larger. -/
theorem value_mono (ha : Decade a k) (hb : Decade b k) (hab : a.toNat ≤ b.toNat) {i : Nat} (hi : i ≤ 9) :
    (nearestIntervalBin ofRat a i).value.toNat ≤ (nearestIntervalBin ofRat b 9).value.toNat := by
  obtain ⟨ht, -⟩ := nearestIntervalBin_travel ofRat ha.ne_zero hi
  obtain ⟨ht', -⟩ := nearestIntervalBin_travel ofRat hb.ne_zero (Nat.le_refl 9)
  have hindex := index_le_of_le ha.one_le_mantissa (ha.mantissa_mono hb hab) ht.le ht.left ht'.pathLeft
  rw [ha.value_eq hi, hb.value_eq (Nat.le_refl 9)]
  refine toNat_floor_mono (ofRat_mono (mul_le_mul_of_nonneg_right (binAt_mono hindex ht'.le) ?_))
  positivity

end Decade

/-- The bin of an interval that is at most `w`, if the bin found for `w` itself is. -/
theorem nearestIntervalBin_le {a w : UInt64} (ha : a ≠ 0) (haw : a.toNat ≤ w.toNat) (hw : w.toNat < 2 ^ 63)
    (hbin : (nearestIntervalBin ofRat w 9).value.toNat ≤ w.toNat) {i : Nat} (hi : i ≤ 9) :
    1 ≤ (nearestIntervalBin ofRat a i).value.toNat ∧ (nearestIntervalBin ofRat a i).value.toNat ≤ w.toNat := by
  have hw0 : w ≠ 0 := by
    rintro rfl
    exact ha (UInt64.toNat_inj.1 (Nat.le_zero.1 haw))
  obtain ⟨k, hk⟩ := exists_decade ha (haw.trans_lt hw)
  obtain ⟨l, hl⟩ := exists_decade hw0 hw
  refine ⟨(Nat.one_le_pow _ _ (by norm_num)).trans (hk.value_bounds hi).1, ?_⟩
  rcases (hk.le_of_le hl haw).lt_or_eq with hlt | rfl
  · -- a lower decade ends below the window
    calc (nearestIntervalBin ofRat a i).value.toNat ≤ 10 ^ (k + 1) := (hk.value_bounds hi).2
      _ ≤ 10 ^ l := Nat.pow_le_pow_right (by norm_num) hlt
      _ ≤ w.toNat := hl.low
  · exact (hk.value_mono hl haw hi).trans hbin

end

end A17.Utils
