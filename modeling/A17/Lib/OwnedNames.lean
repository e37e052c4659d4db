import Mathlib.Logic.Function.Basic

/-!
# Names and their owners

An index of names that owners put in when they come and take out when they go, each name of one owner
(`Owned`).
-/

variable {ι κ ν : Type}

/-- The index has the values of the names that the owners hold, and a name has one owner. -/
structure Owned (index : κ → Option ν) (held : ι → Option (κ × ν)) : Prop where
  eq_some_iff : ∀ k v, index k = some v ↔ ∃ i, held i = some (k, v)
  unique : ∀ i i' k v v', held i = some (k, v) → held i' = some (k, v') → i = i'

namespace Owned
variable {index : κ → Option ν} {held : ι → Option (κ × ν)}

theorem empty : Owned (fun _ : κ => (none : Option ν)) (fun _ : ι => none) where
  eq_some_iff k v := by simp
  unique i i' k v v' h := by cases h

theorem ne_of_held_none (hi : held i = none) {j : ι} {e : κ × ν} (hj : held j = some e) : j ≠ i := by
  rintro rfl
  rw [hi] at hj
  cases hj

variable [DecidableEq ι] [DecidableEq κ]

theorem insert (h : Owned index held) {i : ι} {k : κ} (v : ν) (hi : held i = none) (hk : index k = none) :
    Owned (Function.update index k (some v)) (Function.update held i (some (k, v))) := by
  have hfree : ∀ j v', held j ≠ some (k, v') := fun j v' hj => by
    rw [(h.eq_some_iff k v').2 ⟨j, hj⟩] at hk
    cases hk
  have hcases : ∀ j k' v', Function.update held i (some (k, v)) j = some (k', v') →
      (j = i ∧ k' = k ∧ v' = v) ∨ (j ≠ i ∧ k' ≠ k ∧ held j = some (k', v')) := by
    intro j k' v' hj
    by_cases hji : j = i
    · subst hji
      rw [Function.update_self] at hj
      cases hj
      exact .inl ⟨rfl, rfl, rfl⟩
    · rw [Function.update_of_ne hji] at hj
      refine .inr ⟨hji, ?_, hj⟩
      rintro rfl
      exact hfree j v' hj
  refine ⟨fun k' v' => ?_, fun j j' k' v' v'' hj hj' => ?_⟩
  · constructor
    · intro hk'
      by_cases hkk : k' = k
      · subst hkk
        rw [Function.update_self] at hk'
        cases hk'
        exact ⟨i, Function.update_self ..⟩
      · rw [Function.update_of_ne hkk] at hk'
        obtain ⟨j, hj⟩ := (h.eq_some_iff k' v').1 hk'
        exact ⟨j, by rw [Function.update_of_ne (ne_of_held_none hi hj), hj]⟩
    · rintro ⟨j, hj⟩
      rcases hcases j k' v' hj with ⟨-, rfl, rfl⟩ | ⟨-, hkk, hj⟩
      · exact Function.update_self ..
      · rw [Function.update_of_ne hkk]
        exact (h.eq_some_iff k' v').2 ⟨j, hj⟩
  · rcases hcases j k' v' hj with ⟨rfl, rfl, -⟩ | ⟨-, hkk, hj⟩
    · rcases hcases j' _ v'' hj' with ⟨rfl, -⟩ | ⟨-, hkk, -⟩
      · rfl
      · exact absurd rfl hkk
    · rcases hcases j' k' v'' hj' with ⟨-, rfl, -⟩ | ⟨-, -, hj'⟩
      · exact absurd rfl hkk
      · exact h.unique j j' k' v' v'' hj hj'

theorem erase (h : Owned index held) {i : ι} {k : κ} {v : ν} (hi : held i = some (k, v)) :
    Owned (Function.update index k none) (Function.update held i none) := by
  have hcases : ∀ j k' v', Function.update held i none j = some (k', v') ↔ k' ≠ k ∧ held j = some (k', v') := by
    intro j k' v'
    by_cases hji : j = i
    · subst hji
      rw [Function.update_self]
      refine ⟨fun hj => (by cases hj), fun ⟨hkk, hj⟩ => ?_⟩
      rw [hi] at hj
      cases hj
      exact absurd rfl hkk
    · rw [Function.update_of_ne hji]
      refine ⟨fun hj => ⟨?_, hj⟩, And.right⟩
      rintro rfl
      exact hji (h.unique j i k' v' v hj hi)
  refine ⟨fun k' v' => ?_, fun j j' k' v' v'' hj hj' => ?_⟩
  · simp only [hcases, exists_and_left, ← h.eq_some_iff]
    by_cases hkk : k' = k
    · subst hkk
      simp
    · simp [hkk]
  · exact h.unique j j' k' v' v'' ((hcases j k' v').1 hj).2 ((hcases j' k' v'').1 hj').2

end Owned
