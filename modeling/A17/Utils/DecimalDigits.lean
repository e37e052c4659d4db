import Mathlib.Data.Nat.Size
import A17.Utils.BinReads

/-!
# The digits that are counted

`baseTwoDigits` is right for every number. `baseTenDigits` guesses from it and compares with one power of ten; for
numbers of 64 bits that would be `10 ^ 19`, but `kTenToThe` ends with `UINT64_MAX` there. So the numbers of twenty
digits, all but the last, are counted as if they had nineteen (`countsDigits_iff`).
-/

namespace A17.Utils

/-- The number of bits and the number of decimal digits; 0 has none. -/
structure CountsDigits (x : UInt64) : Prop where
  baseTwo : baseTwoDigits x = x.toNat.size
  baseTen_zero : x = 0 → baseTenDigits x = 0
  baseTen : x ≠ 0 → 10 ^ (baseTenDigits x - 1) ≤ x.toNat ∧ x.toNat < 10 ^ baseTenDigits x

theorem size_eq_log2 {n : ℕ} (h : n ≠ 0) : n.size = n.log2 + 1 := by
  have hle : n.size ≤ n.log2 + 1 := Nat.size_le.2 Nat.lt_log2_self
  have hlt : n.log2 < n.size := Nat.lt_size.2 (Nat.log2_self_le h)
  omega

theorem baseTwoDigits_eq_size (x : UInt64) : baseTwoDigits x = x.toNat.size := by
  by_cases hx : x = 0
  · subst hx
    rfl
  · rw [baseTwoDigits_eq hx, size_eq_log2 fun h0 => hx (UInt64.toNat_inj.1 h0)]

theorem countsDigits_of_bounds {x : UInt64} {k : ℕ} (hdigits : baseTenDigits x = k + 1) (hlow : 10 ^ k ≤ x.toNat)
    (hhigh : x.toNat < 10 ^ (k + 1)) : CountsDigits x := by
  refine ⟨baseTwoDigits_eq_size x, fun h0 => by subst h0; rfl, fun _ => ?_⟩
  rw [hdigits]
  exact ⟨hlow, hhigh⟩

theorem countsDigits_iff (x : UInt64) : CountsDigits x ↔ x.toNat < 10 ^ 19 ∨ x = 0xffffffffffffffff := by
  by_cases hx : x = 0
  · subst hx
    exact iff_of_true ⟨baseTwoDigits_eq_size 0, fun _ => rfl, fun h => absurd rfl h⟩ (.inl (by decide))
  rcases Nat.lt_or_ge x.toNat (2 ^ 63) with hlt | hge
  · obtain ⟨k, _, hdigits, hlow, hhigh⟩ := baseTenDigits_spec hx hlt
    exact iff_of_true (countsDigits_of_bounds hdigits hlow hhigh) (.inl (by omega))
  · have hdigits := baseTenDigits_of_ge hge
    by_cases htop : x = 0xffffffffffffffff
    · rw [if_pos htop] at hdigits
      have htoNat : x.toNat = 2 ^ 64 - 1 := by rw [htop]; rfl
      exact iff_of_true (countsDigits_of_bounds (k := 19) hdigits (by omega) (by omega)) (.inr htop)
    · rw [if_neg htop] at hdigits
      constructor
      · intro hcounts
        have hbound := (hcounts.baseTen hx).2
        rw [hdigits] at hbound
        exact .inl hbound
      · rintro (hlt | heq)
        · exact countsDigits_of_bounds (k := 18) hdigits (by omega) hlt
        · exact absurd heq htop

/-- `10 ^ 19` has twenty digits. -/
theorem digit_missed : ¬ CountsDigits 10000000000000000000 := by
  intro h
  have hbound := (h.baseTen (by decide)).2
  have hdigits : baseTenDigits 10000000000000000000 = 19 := by decide +kernel
  rw [hdigits] at hbound
  exact absurd hbound (by decide)

end A17.Utils
