import Mathlib.Data.List.Basic

/-!
# Inputs that act on separate parts of a state

A state machine reads inputs, each of which carries a message with a key. When the part of the state
that belongs to a key (`view`) is changed by the messages of that key only, and by them in a way that
looks at no other part, the part after a run is a function of the messages of its key in their order
(`view_foldl`), whatever stood between them.
-/

/-- `step` separates under the invariant `P`: the message `msg a` acts on the view of its own key by
`act`, and leaves the others alone. -/
structure Separated {σ α β κ ν : Type} (P : σ → Prop) (step : σ → α → σ) (msg : α → β) (key : β → κ)
    (view : κ → σ → ν) (act : ν → β → ν) : Prop where
  keep : ∀ s a, P s → P (step s a)
  own : ∀ s a, P s → view (key (msg a)) (step s a) = act (view (key (msg a)) s) (msg a)
  other : ∀ s a k, P s → k ≠ key (msg a) → view k (step s a) = view k s

namespace Separated
variable {σ α β κ ν : Type} [DecidableEq κ] {P : σ → Prop} {step : σ → α → σ} {msg : α → β} {key : β → κ}
  {view : κ → σ → ν} {act : ν → β → ν}

theorem view_foldl (h : Separated P step msg key view act) (k : κ) (l : List α) {s : σ} (hs : P s) :
    view k (l.foldl step s) = ((l.map msg).filter fun b => key b = k).foldl act (view k s) := by
  induction l generalizing s with
  | nil => rfl
  | cons a l ih =>
    rw [List.foldl_cons, ih (h.keep s a hs), List.map_cons]
    by_cases hk : key (msg a) = k
    · subst hk
      rw [List.filter_cons_of_pos (by simp), List.foldl_cons, h.own s a hs]
    · rw [List.filter_cons_of_neg (by simpa using hk), h.other s a k hs (Ne.symm hk)]

/-- Two runs that agree on the order of each key's messages end with the same views. -/
theorem view_eq (h : Separated P step msg key view act) {l₁ l₂ : List α} {s : σ} (hs : P s)
    (hl : ∀ k, ((l₁.map msg).filter fun b => key b = k) = (l₂.map msg).filter fun b => key b = k) (k : κ) :
    view k (l₁.foldl step s) = view k (l₂.foldl step s) := by
  rw [h.view_foldl k l₁ hs, h.view_foldl k l₂ hs, hl k]

end Separated
