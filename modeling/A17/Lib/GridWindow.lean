import Mathlib.Data.Fintype.Defs
import Mathlib.Data.Int.Bitwise
import Mathlib.Tactic.Linarith

/-!
# Windows of the integer grid, stored modulo a power of two

The window of size `n` at `o` holds the integers from `o` up to `o + n`; modulo `n` each integer has one congruent
to it in the window (`fit`). On several axes a window is a box. In two's complement a mask of low bits takes the
remainder (`land_mask`), and a difference has none of the high bits exactly when it is a place of the window
(`land_lnot_mask_eq_zero`).
-/

namespace GridWindow

/-! ### Masks -/

theorem land_mask (c : Int) (k : Nat) : Int.land c (2 ^ k - 1) = c % 2 ^ k := by
  have hmask : (2 ^ k - 1 : Int) = ((2 ^ k - 1 : Nat) : Int) := by
    rw [Nat.cast_sub Nat.one_le_two_pow]
    simp
  rw [hmask]
  cases c with
  | ofNat m =>
    show ((m &&& (2 ^ k - 1) : Nat) : Int) = (m : Int) % 2 ^ k
    rw [Nat.and_two_pow_sub_one_eq_mod]
    push_cast
    rfl
  | negSucc m =>
    have hldiff : Nat.ldiff (2 ^ k - 1) m = 2 ^ k - (m % 2 ^ k + 1) := by
      apply Nat.eq_of_testBit_eq
      intro i
      rw [Nat.testBit_ldiff, Nat.testBit_two_pow_sub_succ (Nat.mod_lt _ (Nat.two_pow_pos k)),
        Nat.testBit_two_pow_sub_one, Nat.testBit_mod_two_pow]
      by_cases h : i < k <;> simp [h]
    show ((Nat.ldiff (2 ^ k - 1) m : Nat) : Int) = Int.negSucc m % 2 ^ k
    have hlt : m % 2 ^ k < 2 ^ k := Nat.mod_lt _ (Nat.two_pow_pos k)
    rw [hldiff, Int.negSucc_emod _ (pow_pos two_pos k), Nat.cast_sub hlt]
    push_cast
    omega

theorem land_lnot_mask_eq_zero (d : Int) (k : Nat) : Int.land d (Int.lnot (2 ^ k - 1)) = 0 ↔ 0 ≤ d ∧ d < 2 ^ k := by
  have hmask : Int.lnot (2 ^ k - 1 : Int) = Int.negSucc (2 ^ k - 1) := by
    rw [show (2 ^ k - 1 : Int) = ((2 ^ k - 1 : Nat) : Int) by rw [Nat.cast_sub Nat.one_le_two_pow]; simp]
    rfl
  rw [hmask]
  cases d with
  | ofNat m =>
    have hzero : Nat.ldiff m (2 ^ k - 1) = 0 ↔ m < 2 ^ k := by
      constructor
      · intro h
        apply Nat.lt_pow_two_of_testBit
        intro i hi
        have hbit : (Nat.ldiff m (2 ^ k - 1)).testBit i = false := by simp [h]
        rw [Nat.testBit_ldiff, Nat.testBit_two_pow_sub_one, decide_eq_false (not_lt.2 hi)] at hbit
        simpa using hbit
      · intro h
        apply Nat.eq_of_testBit_eq
        intro i
        rw [Nat.testBit_ldiff, Nat.testBit_two_pow_sub_one, Nat.zero_testBit]
        by_cases hi : i < k
        · simp [hi]
        · have hbit : m.testBit i = false :=
            Nat.testBit_lt_two_pow (lt_of_lt_of_le h (Nat.pow_le_pow_right (by norm_num) (not_lt.1 hi)))
          simp [hbit]
    show ((Nat.ldiff m (2 ^ k - 1) : Nat) : Int) = 0 ↔ 0 ≤ (m : Int) ∧ (m : Int) < 2 ^ k
    rw [Nat.cast_eq_zero, hzero, ← Nat.cast_lt (α := Int)]
    push_cast
    simp
  | negSucc m =>
    show Int.negSucc (m ||| (2 ^ k - 1)) = 0 ↔ _
    constructor
    · intro h
      exact absurd h (Int.negSucc_ne_zero _)
    · rintro ⟨h, -⟩
      exact absurd h (Int.negSucc_not_nonneg m).1

/-! ### The place of a coordinate -/

section
variable {n : Int} {o c d : Int}

/-- The one congruent to `c` in the window of size `n` at `o`. -/
def fit (n o c : Int) : Int := o + (c - o) % n

theorem fit_emod : fit n o c % n = c % n := by
  unfold fit
  rw [Int.add_emod, Int.emod_emod_of_dvd _ (dvd_refl n), ← Int.add_emod, add_sub_cancel]

theorem le_fit (hn : 0 < n) : o ≤ fit n o c := by
  have := Int.emod_nonneg (c - o) hn.ne'
  unfold fit
  omega

theorem fit_lt (hn : 0 < n) : fit n o c < o + n := by
  have := Int.emod_lt_of_pos (c - o) hn
  unfold fit
  omega

theorem fit_eq_self_iff (hn : 0 < n) : fit n o c = c ↔ o ≤ c ∧ c < o + n := by
  constructor
  · intro h
    rw [← h]
    exact ⟨le_fit hn, fit_lt hn⟩
  · rintro ⟨hle, hlt⟩
    unfold fit
    rw [Int.emod_eq_of_lt (by omega) (by omega)]
    omega

/-- Two congruent integers of one window are equal. -/
theorem eq_of_emod_eq (hn : 0 < n) (h : c % n = d % n) (hc : o ≤ c ∧ c < o + n) (hd : o ≤ d ∧ d < o + n) :
    c = d := by
  rw [← (fit_eq_self_iff hn).2 hc, ← (fit_eq_self_iff hn).2 hd]
  unfold fit
  rw [Int.sub_emod, h, ← Int.sub_emod]

theorem fit_congr (h : c % n = d % n) : fit n o c = fit n o d := by
  unfold fit
  rw [Int.sub_emod, h, ← Int.sub_emod]

end

/-! ### Boxes -/

section
variable {ι : Type} {n : Int} {o c d : ι → Int}

def Inside (n : Int) (o c : ι → Int) : Prop := ∀ i, o i ≤ c i ∧ c i < o i + n

def Congr (n : Int) (c d : ι → Int) : Prop := ∀ i, c i % n = d i % n

def fitBox (n : Int) (o c : ι → Int) : ι → Int := fun i => fit n (o i) (c i)

instance [Fintype ι] : Decidable (Congr n c d) := inferInstanceAs (Decidable (∀ _, _))

instance [Fintype ι] : Decidable (Inside n o c) := inferInstanceAs (Decidable (∀ _, _))

theorem Congr.refl (n : Int) (c : ι → Int) : Congr n c c := fun _ => rfl

theorem Congr.symm (h : Congr n c d) : Congr n d c := fun i => (h i).symm

theorem Congr.trans {e : ι → Int} (h : Congr n c d) (h' : Congr n d e) : Congr n c e := fun i => (h i).trans (h' i)

theorem congr_fitBox : Congr n (fitBox n o c) c := fun _ => fit_emod

theorem inside_fitBox (hn : 0 < n) : Inside n o (fitBox n o c) := fun _ => ⟨le_fit hn, fit_lt hn⟩

theorem fitBox_eq_self_iff (hn : 0 < n) : fitBox n o c = c ↔ Inside n o c := by
  rw [funext_iff]
  exact forall_congr' fun i => fit_eq_self_iff hn

theorem fitBox_congr (h : Congr n c d) : fitBox n o c = fitBox n o d := funext fun i => fit_congr (h i)

theorem Inside.eq (hn : 0 < n) (hc : Inside n o c) (hd : Inside n o d) (h : Congr n c d) : c = d :=
  funext fun i => eq_of_emod_eq hn (h i) (hc i) (hd i)

theorem fitBox_eq_iff : fitBox n o c = fitBox n o d ↔ Congr n c d :=
  ⟨fun h => congr_fitBox.symm.trans fun i => (congrArg (· i % n) h).trans (congr_fitBox i), fitBox_congr⟩

end

/-! ### A volume that moves over the grid -/

/-- What a box of the grid holds. `content` has a meaning inside the box only. -/
structure Volume (ι α : Type) where
  offset : ι → Int
  content : (ι → Int) → α

namespace Volume
variable {ι α : Type} {n : Int}

/-- The content at the point of the box that `c` falls on. -/
def get (n : Int) (v : Volume ι α) (c : ι → Int) : α := v.content (fitBox n v.offset c)

open Classical in
noncomputable def set (n : Int) (v : Volume ι α) (c : ι → Int) (data : α) : Volume ι α :=
  { v with content := Function.update v.content (fitBox n v.offset c) data }

open Classical in
/-- The box goes to `o`: a point of both boxes keeps what it holds, a point that comes in holds `empty`. -/
noncomputable def move (n : Int) (v : Volume ι α) (o : ι → Int) (empty : α) : Volume ι α where
  offset := o
  content c := if Inside n v.offset c then v.content c else empty

/-- The box goes to `o` with all it holds: each point of the new box takes what the congruent point held. -/
def relabel (n : Int) (v : Volume ι α) (o : ι → Int) : Volume ι α where
  offset := o
  content := v.get n

theorem get_of_inside (hn : 0 < n) {v : Volume ι α} {c : ι → Int} (h : Inside n v.offset c) :
    v.get n c = v.content c := by
  rw [get, (fitBox_eq_self_iff hn).2 h]

theorem get_set [Fintype ι] (v : Volume ι α) (c d : ι → Int) (data : α) :
    (v.set n c data).get n d = if Congr n c d then data else v.get n d := by
  have heq : fitBox n v.offset d = fitBox n v.offset c ↔ Congr n c d :=
    fitBox_eq_iff.trans ⟨Congr.symm, Congr.symm⟩
  simp only [get, set, Function.update_apply, heq]

theorem get_move [Fintype ι] (v : Volume ι α) (o c : ι → Int) (empty : α) :
    (v.move n o empty).get n c = if Inside n v.offset (fitBox n o c) then v.content (fitBox n o c) else empty := by
  by_cases h : Inside n v.offset (fitBox n o c)
  · rw [if_pos h]
    exact if_pos h
  · rw [if_neg h]
    exact if_neg h

theorem get_relabel (v : Volume ι α) (o c : ι → Int) : (v.relabel n o).get n c = v.get n c :=
  congrArg v.content (fitBox_congr congr_fitBox)

end Volume
end GridWindow
