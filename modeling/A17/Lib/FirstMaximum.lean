import Mathlib.Data.List.MinMax

/-!
# The first maximum of a list

A loop that starts with the first element and takes another one only if it is greater computes
`List.argmax`, that is, the first of the greatest elements. In a list in the order of a relation, that is
the least of them.
-/

namespace FirstMaximum
variable {α β : Type} [LinearOrder β] {f : α → β} {a b : α} {l : List α}

theorem foldl_argAux_some (a : α) (l : List α) : l.foldl (List.argAux fun b c => f c < f b) (some a) =
    some (l.foldl (fun greatest b => if f greatest < f b then b else greatest) a) := by
  induction l generalizing a with
  | nil => rfl
  | cons b l ih =>
    rw [List.foldl_cons, List.foldl_cons, ← ih]
    congr 1
    simp only [List.argAux]
    split <;> rfl

theorem argmax_cons_eq_foldl (a : α) (l : List α) : (a :: l).argmax f =
    some ((a :: l).foldl (fun greatest b => if f greatest < f b then b else greatest) a) := by
  rw [List.foldl_cons, if_neg (lt_irrefl (f a))]
  exact foldl_argAux_some a l

theorem foldl_mem (a : α) (l : List α) :
    (a :: l).foldl (fun greatest b => if f greatest < f b then b else greatest) a ∈ a :: l :=
  List.argmax_mem (argmax_cons_eq_foldl a l)

/-- Of the greatest elements of an ordered list, `argmax` is the least. -/
theorem eq_or_rel_of_argmax [DecidableEq α] {r : α → α → Prop} (hl : l.Pairwise r) (ha : l.argmax f = some a)
    (hb : b ∈ l) (hab : f a ≤ f b) : a = b ∨ r a b := by
  have hal := List.argmax_mem ha
  rcases (List.index_of_argmax ha hb hab).lt_or_eq with hlt | heq
  · have hr := List.pairwise_iff_getElem.1 hl _ _ (List.idxOf_lt_length_of_mem hal)
      (List.idxOf_lt_length_of_mem hb) hlt
    rw [List.getElem_idxOf, List.getElem_idxOf] at hr
    exact .inr hr
  · exact .inl ((List.idxOf_inj hal).1 heq)

end FirstMaximum
