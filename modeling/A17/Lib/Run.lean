import Mathlib.Data.List.Basic
import Mathlib.Data.List.Induction

/-!
# Properties along a run

A run folds a step function over a list of operations. `States` says something of every state the run
passes through, `Steps` of every step in the state before it. If the steps that are not `Q` are what breaks
`P`, then the runs with `P` throughout are those whose steps are all `Q` (`states_iff_steps`). `Standing`
says of the operations alone that something was done and has not been undone.
-/

namespace Run
variable {σ α : Type} (step : σ → α → σ)

def States (P : σ → Prop) (s : σ) (ops : List α) : Prop := ∀ pre, pre <+: ops → P (pre.foldl step s)

def Steps (Q : σ → α → Prop) (s : σ) (ops : List α) : Prop :=
  ∀ pre a, pre ++ [a] <+: ops → Q (pre.foldl step s) a

variable {step} {P I : σ → Prop} {Q : σ → α → Prop} {s : σ} {ops pre : List α}

theorem States.last (h : States step P s ops) : P (ops.foldl step s) := h ops (List.prefix_refl ops)

theorem Steps.initial (h : Steps step Q s ops) (hpre : pre <+: ops) : Steps step Q s pre :=
  fun l a hl => h l a (hl.trans hpre)

theorem steps_nil : Steps step Q s [] := by
  intro pre a h
  simp at h

theorem steps_cons {a : α} : Steps step Q s (a :: ops) ↔ Q s a ∧ Steps step Q (step s a) ops := by
  constructor
  · intro h
    refine ⟨h [] a (by simp), fun pre b hpre => ?_⟩
    exact h (a :: pre) b (by simpa using hpre)
  · rintro ⟨h0, h⟩ pre b hpre
    cases pre with
    | nil =>
      obtain rfl : b = a := by simpa using hpre
      exact h0
    | cons a' pre =>
      obtain ⟨rfl, htail⟩ : a' = a ∧ pre ++ [b] <+: ops := by simpa using hpre
      exact h pre b htail

theorem steps_concat {a : α} : Steps step Q s (ops ++ [a]) ↔ Steps step Q s ops ∧ Q (ops.foldl step s) a := by
  constructor
  · intro h
    exact ⟨h.initial (List.prefix_append ..), h ops a (List.prefix_refl _)⟩
  · rintro ⟨h, ha⟩ pre b hpre
    rcases List.prefix_concat_iff.1 hpre with heq | hlt
    · obtain ⟨rfl, rfl⟩ := List.append_singleton_inj.1 heq
      exact ha
    · exact h pre b hlt

/-- The invariant rule. -/
theorem Steps.invariant (hstep : ∀ s a, I s → Q s a → I (step s a)) (h : Steps step Q s ops) (hs : I s) :
    I (ops.foldl step s) := by
  induction ops using List.reverseRecOn with
  | nil => exact hs
  | append_singleton ops a ih =>
    rw [steps_concat] at h
    rw [List.foldl_concat]
    exact hstep _ a (ih h.1) h.2

theorem Steps.states (hstep : ∀ s a, I s → Q s a → I (step s a)) (h : Steps step Q s ops) (hs : I s) :
    States step I s ops :=
  fun _ hpre => (h.initial hpre).invariant hstep hs

theorem invariant (hstep : ∀ s a, I s → I (step s a)) (hs : I s) : I (ops.foldl step s) :=
  Steps.invariant (Q := fun _ _ => True) (fun s a h _ => hstep s a h) (fun _ _ _ => trivial) hs

/-- The invariant rule for what a state says of the operations that led to it. -/
theorem history {H : List α → σ → Prop} (h0 : H [] s)
    (hstep : ∀ pre a, pre ++ [a] <+: ops → H pre (pre.foldl step s) → H (pre ++ [a]) (step (pre.foldl step s) a)) :
    H ops (ops.foldl step s) := by
  have h : ∀ pre, pre <+: ops → H pre (pre.foldl step s) := by
    intro pre
    induction pre using List.reverseRecOn with
    | nil => exact fun _ => h0
    | append_singleton pre a ih =>
      intro hpre
      rw [List.foldl_concat]
      exact hstep pre a hpre (ih ((List.prefix_append ..).trans hpre))
  exact h ops (List.prefix_refl ops)

/-- The invariant rule for a loop that counts its passes. -/
theorem counted {f : σ → ℕ → σ} {motive : ℕ → σ → Prop} (zero : motive 0 s)
    (succ : ∀ n s, motive n s → motive (n + 1) (f s n)) (n : ℕ) : motive n ((List.range n).foldl f s) := by
  induction n with
  | zero => exact zero
  | succ n ih =>
    rw [List.range_succ, List.foldl_concat]
    exact succ n _ ih

/-- An operation that is `made` took place, and none that is `undone` since. -/
def Standing (made undone : α → Prop) (ops : List α) : Prop :=
  ∃ pre a post, ops = pre ++ a :: post ∧ made a ∧ ∀ b ∈ post, ¬ undone b

theorem not_standing_nil {made undone : α → Prop} : ¬ Standing made undone [] := by
  rintro ⟨pre, a, post, h, -⟩
  simp at h

theorem standing_concat {made undone : α → Prop} {a : α} :
    Standing made undone (ops ++ [a]) ↔ made a ∨ (Standing made undone ops ∧ ¬ undone a) := by
  constructor
  · rintro ⟨pre, b, post, h, hmade, hpost⟩
    cases post using List.reverseRecOn with
    | nil =>
      obtain ⟨rfl, rfl⟩ := List.append_singleton_inj.1 h
      exact .inl hmade
    | append_singleton post c =>
      rw [← List.cons_append, ← List.append_assoc] at h
      obtain ⟨rfl, rfl⟩ := List.append_singleton_inj.1 h
      refine .inr ⟨⟨pre, b, post, rfl, hmade, fun x hx => hpost x (by simp [hx])⟩, hpost a (by simp)⟩
  · rintro (hmade | ⟨⟨pre, b, post, rfl, hmade, hpost⟩, ha⟩)
    · exact ⟨ops, a, [], rfl, hmade, by simp⟩
    · refine ⟨pre, b, post ++ [a], by simp, hmade, fun x hx => ?_⟩
      rcases List.mem_append.1 hx with hx | hx
      · exact hpost x hx
      · rw [List.mem_singleton.1 hx]
        exact ha

/-- `I` gives `P` and is kept by the steps that are `Q`; a step that is not breaks `P`. -/
theorem states_iff_steps (hP : ∀ s, I s → P s) (hkeep : ∀ s a, I s → Q s a → I (step s a))
    (hbreak : ∀ s a, I s → ¬ Q s a → ¬ P (step s a)) (hs : I s) :
    States step P s ops ↔ Steps step Q s ops := by
  constructor
  · intro h
    induction ops using List.reverseRecOn with
    | nil => exact steps_nil
    | append_singleton ops a ih =>
      have hops := ih fun pre hpre => h pre (hpre.trans (List.prefix_append ..))
      refine steps_concat.2 ⟨hops, ?_⟩
      by_contra hq
      have hlast := h.last
      rw [List.foldl_concat] at hlast
      exact hbreak _ a (hops.invariant hkeep hs) hq hlast
  · exact fun h pre hpre => hP _ (h.states hkeep hs pre hpre)

end Run
