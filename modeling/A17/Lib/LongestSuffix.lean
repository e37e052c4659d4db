import Mathlib.Algebra.Order.BigOperators.Group.List
import Mathlib.Data.List.Infix

/-!
# The longest suffix within a bound

A queue that drops from its front while its total exceeds `w` holds the longest suffix of everything
pushed whose total is at most `w`, as long as the weights are not negative: what was dropped would be
dropped again.
-/

namespace LongestSuffix
variable {α M : Type} [AddCommMonoid M] (weight : α → M)

def total (l : List α) : M := (l.map weight).sum

@[simp] theorem total_nil : total weight [] = 0 := rfl

@[simp] theorem total_cons (a : α) (l : List α) : total weight (a :: l) = weight a + total weight l := by
  simp [total]

@[simp] theorem total_append (l l' : List α) : total weight (l ++ l') = total weight l + total weight l' := by
  simp [total]

variable [LinearOrder M]

/-- `q` is the longest suffix of `l` with a total of at most `w`. -/
structure Within (w : M) (l q : List α) : Prop where
  suffix : q <:+ l
  total_le : total weight q ≤ w
  longest : ∀ s, s <:+ l → total weight s ≤ w → s <:+ q

def trim (w : M) : List α → List α
  | [] => []
  | a :: l => if w < total weight (a :: l) then trim w l else a :: l

variable {weight} {w : M} {l l' q q' : List α} {x : α}

theorem Within.unique (h : Within weight w l q) (h' : Within weight w l q') : q = q' :=
  have hle := h'.longest q h.suffix h.total_le
  hle.eq_of_length_le (h.longest q' h'.suffix h'.total_le).length_le

variable (weight) in
theorem within_trim (hw : 0 ≤ w) (l : List α) : Within weight w l (trim weight w l) := by
  induction l with
  | nil => exact ⟨List.suffix_refl _, hw, fun s hs _ => hs⟩
  | cons a l ih =>
    by_cases h : w < total weight (a :: l)
    · rw [trim, if_pos h]
      refine ⟨ih.suffix.trans (List.suffix_cons a l), ih.total_le, fun s hs hle => ?_⟩
      rcases List.suffix_cons_iff.1 hs with rfl | hs
      · exact absurd hle h.not_ge
      · exact ih.longest s hs hle
    · rw [trim, if_neg h]
      exact ⟨List.suffix_refl _, not_lt.1 h, fun s hs _ => hs⟩

variable [IsOrderedAddMonoid M]

/-- One more element: the queue takes it and drops from the front. -/
theorem Within.concat (h : Within weight w l q) (hx : 0 ≤ weight x) (hw : 0 ≤ w) :
    Within weight w (l ++ [x]) (trim weight w (q ++ [x])) := by
  have ht := within_trim weight hw (q ++ [x])
  obtain ⟨r, rfl⟩ := h.suffix
  refine ⟨ht.suffix.trans ⟨r, by simp⟩, ht.total_le, fun s hs hle => ht.longest s ?_ hle⟩
  rcases List.suffix_concat_iff.1 hs with rfl | ⟨s', rfl, hs'⟩
  · exact List.nil_suffix
  · have hle' : total weight s' ≤ w := by
      rw [total_append, total_cons, total_nil, add_zero] at hle
      exact (le_add_of_nonneg_right hx).trans hle
    obtain ⟨r', hr'⟩ := h.longest s' hs' hle'
    exact ⟨r', by rw [← hr']; simp⟩

theorem total_nonneg (h : ∀ a ∈ l, 0 ≤ weight a) : 0 ≤ total weight l := by
  refine List.sum_nonneg fun y hy => ?_
  obtain ⟨a, ha, rfl⟩ := List.mem_map.1 hy
  exact h a ha

/-- What lies before a part that is over the bound does not count. -/
theorem Within.of_append (h : Within weight w (l ++ l') q) (hl : ∀ a ∈ l, 0 ≤ weight a)
    (hover : w < total weight l') : Within weight w l' q := by
  have hin : ∀ s, s <:+ l ++ l' → total weight s ≤ w → s <:+ l' := by
    intro s hs hle
    rcases List.suffix_or_suffix_of_suffix hs (List.suffix_append l l') with hs' | ⟨a, rfl⟩
    · exact hs'
    · have ha : a <:+ l := ((List.suffix_append_inj_of_length_eq rfl).1 hs).1
      have hpos := total_nonneg fun y hy => hl y (ha.subset hy)
      rw [total_append] at hle
      exact absurd (hover.trans_le ((le_add_of_nonneg_left hpos).trans hle)) (lt_irrefl w)
  exact ⟨hin q h.suffix h.total_le, h.total_le, fun s hs hle => h.longest s (hs.trans (List.suffix_append l l')) hle⟩

end LongestSuffix
