import Mathlib.Data.List.Basic
import Mathlib.Data.List.Nodup
import Std.Data.ExtTreeMap

/-!
# Ordered maps and two-level maps

`Std.ExtTreeMap` plays the ordered map (lookup, insert, erase, iteration in key order); its lookup
lemmas are restated here with `=` in place of `compare`. A two-level map `NestedMap κ γ τ` files a
value under an outer and an inner key and keeps no empty inner map (`NoEmpty`); it is then the same
thing as the flat partial map `entry` (`ext_entry`). The operations are `put`, `drop` and the
erase-while-iterating loop `dropAll`, each with the flat map it computes.
-/

open Std

set_option linter.unusedSectionVars false

namespace Std.ExtTreeMap
variable {κ ν : Type} [Ord κ] [TransOrd κ] [LawfulEqOrd κ] [DecidableEq κ] {m : ExtTreeMap κ ν}

theorem find_insert (k a : κ) (v : ν) : (m.insert k v)[a]? = if k = a then some v else m[a]? := by
  rw [getElem?_insert]; simp only [compare_eq_iff_eq]

theorem find_erase (k a : κ) : (m.erase k)[a]? = if k = a then none else m[a]? := by
  rw [getElem?_erase]; simp only [compare_eq_iff_eq]

theorem mem_iff_find {k : κ} : k ∈ m ↔ ∃ v, m[k]? = some v := by
  rw [mem_iff_isSome_getElem?, Option.isSome_iff_exists]

theorem ne_empty_iff_find : m ≠ ∅ ↔ ∃ (k : κ) (v : ν), m[k]? = some v := by
  rw [ne_eq, eq_empty_iff_forall_not_mem]
  simp only [not_forall, not_not, mem_iff_find]

theorem find_eq_none {k : κ} : m[k]? = none ↔ k ∉ m := by
  rw [mem_iff_find]; cases m[k]? <;> simp

theorem insert_eq_self {k : κ} {v : ν} (h : m[k]? = some v) : m.insert k v = m := by
  ext a : 1
  rw [find_insert]; split
  · next heq => rw [← heq, h]
  · rfl

theorem erase_eq_self {k : κ} (h : m[k]? = none) : m.erase k = m := by
  ext a : 1
  rw [find_erase]; split
  · next heq => rw [← heq, h]
  · rfl

end Std.ExtTreeMap

abbrev NestedMap (κ γ τ : Type) [Ord κ] [Ord γ] := ExtTreeMap κ (ExtTreeMap γ τ)

namespace NestedMap
variable {κ γ τ : Type} [Ord κ] [TransOrd κ] [LawfulEqOrd κ] [DecidableEq κ]
  [Ord γ] [TransOrd γ] [LawfulEqOrd γ] [DecidableEq γ] {m m' : NestedMap κ γ τ}

/-- The flat partial map: the value filed under `n` and `g`. -/
def entry (m : NestedMap κ γ τ) (n : κ) (g : γ) : Option τ := m[n]?.bind (·[g]?)

def NoEmpty (m : NestedMap κ γ τ) : Prop :=
  ∀ (n : κ) (inner : ExtTreeMap γ τ), m[n]? = some inner → inner ≠ ∅

def put (m : NestedMap κ γ τ) (n : κ) (g : γ) (t : τ) : NestedMap κ γ τ :=
  m.insert n ((m[n]?.getD ∅).insert g t)

/-- Erases `g` under `n`, and `n` itself once its inner map is empty. -/
def drop (m : NestedMap κ γ τ) (n : κ) (g : γ) : NestedMap κ γ τ :=
  match m[n]? with
  | none => m
  | some inner => if (inner.erase g).isEmpty then m.erase n else m.insert n (inner.erase g)

/-- Erases `g` under every outer key, in one pass over the keys. -/
def dropAll (m : NestedMap κ γ τ) (g : γ) : NestedMap κ γ τ :=
  m.toList.foldl (fun acc e => acc.drop e.1 g) m

@[simp] theorem entry_empty (n : κ) (g : γ) : entry (∅ : NestedMap κ γ τ) n g = none := by
  simp [entry]

theorem noEmpty_empty : NoEmpty (∅ : NestedMap κ γ τ) := by simp [NoEmpty]

theorem entry_of_find {n : κ} {inner : ExtTreeMap γ τ} (h : m[n]? = some inner) (g : γ) :
    m.entry n g = inner[g]? := by
  simp [entry, h]

theorem entry_put (n n' : κ) (g g' : γ) (t : τ) :
    (m.put n g t).entry n' g' = if n = n' ∧ g = g' then some t else m.entry n' g' := by
  unfold put entry
  rw [ExtTreeMap.find_insert]
  by_cases hn : n = n'
  · subst hn
    simp only [if_true, Option.bind_some, true_and, ExtTreeMap.find_insert]
    split
    · rfl
    · cases m[n]? <;> simp
  · simp [hn]

theorem NoEmpty.put (h : m.NoEmpty) (n : κ) (g : γ) (t : τ) : (m.put n g t).NoEmpty := by
  intro n' inner hin
  unfold NestedMap.put at hin
  rw [ExtTreeMap.find_insert] at hin
  split at hin
  · cases hin
    exact ExtTreeMap.ne_empty_iff_find.2 ⟨g, t, by rw [ExtTreeMap.find_insert, if_pos rfl]⟩
  · exact h n' inner hin

theorem entry_drop (n n' : κ) (g g' : γ) :
    (m.drop n g).entry n' g' = if n = n' ∧ g = g' then none else m.entry n' g' := by
  unfold drop
  cases hm : m[n]? with
  | none =>
    simp only [entry]
    split
    · next h => rw [← h.1, hm]; rfl
    · rfl
  | some inner =>
    have hg : ((inner.erase g)[g']?) = if g = g' then none else inner[g']? := ExtTreeMap.find_erase g g'
    by_cases hn : n = n'
    · subst hn
      simp only [entry, true_and, hm, Option.bind_some, ← hg]
      split
      · next he =>
        -- the inner map is gone, and it had nothing else to give
        rw [ExtTreeMap.getElem?_erase_self, ExtTreeMap.isEmpty_iff.1 he]; simp
      · rw [ExtTreeMap.getElem?_insert_self]; rfl
    · simp only [entry, hn, false_and, if_false]
      split
      · rw [ExtTreeMap.find_erase, if_neg hn]
      · rw [ExtTreeMap.find_insert, if_neg hn]

theorem NoEmpty.drop (h : m.NoEmpty) (n : κ) (g : γ) : (m.drop n g).NoEmpty := by
  unfold NestedMap.drop
  cases hm : m[n]? with
  | none => exact h
  | some inner =>
    intro n' inner' hin
    simp only at hin
    split at hin
    · rw [ExtTreeMap.find_erase] at hin
      split at hin
      · cases hin
      · exact h n' inner' hin
    · next he =>
      rw [ExtTreeMap.find_insert] at hin
      split at hin
      · cases hin; exact fun h0 => he (ExtTreeMap.isEmpty_iff.2 h0)
      · exact h n' inner' hin

theorem find_drop_of_ne {n n' : κ} (g : γ) (hn : n ≠ n') : (m.drop n g)[n']? = m[n']? := by
  unfold drop
  cases m[n]? with
  | none => rfl
  | some inner =>
    simp only
    split
    · rw [ExtTreeMap.find_erase, if_neg hn]
    · rw [ExtTreeMap.find_insert, if_neg hn]

theorem entry_foldl_drop {α : Type} (key : α → κ) (l : List α) (g g' : γ) (n' : κ) :
    (l.foldl (fun acc e => acc.drop (key e) g) m).entry n' g' =
      if n' ∈ l.map key ∧ g = g' then none else m.entry n' g' := by
  induction l generalizing m with
  | nil => simp
  | cons e l ih =>
    rw [List.foldl_cons, ih, entry_drop, List.map_cons]
    simp only [List.mem_cons, eq_comm (a := n')]
    by_cases hg : g = g' <;> by_cases hn : n' ∈ l.map key <;> by_cases he : key e = n' <;>
      simp only [hg, hn, he, and_true, and_false, or_true, or_false, if_true, if_false]

theorem NoEmpty.foldl_drop (h : m.NoEmpty) {α : Type} (key : α → κ) (l : List α) (g : γ) :
    (l.foldl (fun acc e => acc.drop (key e) g) m).NoEmpty := by
  induction l generalizing m with
  | nil => exact h
  | cons e l ih => exact ih (h.drop (key e) g)

theorem entry_dropAll (g g' : γ) (n' : κ) :
    (m.dropAll g).entry n' g' = if g = g' then none else m.entry n' g' := by
  unfold dropAll
  rw [entry_foldl_drop]
  by_cases hn : n' ∈ m.toList.map Prod.fst
  · simp only [hn, true_and]
  · -- an outer key the pass does not visit has no entry to lose
    have : m[n']? = none := by
      rw [ExtTreeMap.map_fst_toList_eq_keys, ExtTreeMap.mem_keys] at hn
      exact ExtTreeMap.find_eq_none.2 hn
    simp [entry, this]

theorem NoEmpty.dropAll (h : m.NoEmpty) (g : γ) : (m.dropAll g).NoEmpty :=
  h.foldl_drop Prod.fst m.toList g

theorem NoEmpty.mem_iff (h : m.NoEmpty) {n : κ} : n ∈ m ↔ ∃ g t, m.entry n g = some t := by
  rw [ExtTreeMap.mem_iff_find]
  constructor
  · rintro ⟨inner, hin⟩
    obtain ⟨g, t, ht⟩ := ExtTreeMap.ne_empty_iff_find.1 (h n inner hin)
    exact ⟨g, t, by rw [entry_of_find hin, ht]⟩
  · rintro ⟨g, t, ht⟩
    cases hm : m[n]? with
    | none => simp [entry, hm] at ht
    | some inner => exact ⟨inner, rfl⟩

/-- Two-level maps without empty inner maps are determined by their entries. -/
theorem ext_entry (h : m.NoEmpty) (h' : m'.NoEmpty) (he : ∀ n g, m.entry n g = m'.entry n g) : m = m' := by
  have key : ∀ n, n ∈ m ↔ n ∈ m' := by
    intro n; rw [h.mem_iff, h'.mem_iff]; simp only [he]
  ext n : 1
  cases hm : m[n]? with
  | none =>
    have hn : n ∉ m' := fun hn => ExtTreeMap.find_eq_none.1 hm ((key n).2 hn)
    rw [ExtTreeMap.find_eq_none.2 hn]
  | some inner =>
    obtain ⟨inner', hm'⟩ := ExtTreeMap.mem_iff_find.1 ((key n).1 (ExtTreeMap.mem_iff_find.2 ⟨inner, hm⟩))
    rw [hm', Option.some.injEq]
    ext g : 1
    rw [← entry_of_find hm, ← entry_of_find hm', he]

def mapValues {υ : Type} (f : τ → υ) (m : NestedMap κ γ τ) : NestedMap κ γ υ :=
  ExtTreeMap.map (fun _ inner => inner.map fun _ t => f t) m

theorem entry_mapValues {υ : Type} (f : τ → υ) (n : κ) (g : γ) : (m.mapValues f).entry n g = (m.entry n g).map f := by
  unfold mapValues entry
  rw [ExtTreeMap.getElem?_map]
  cases m[n]? with
  | none => rfl
  | some inner => simp only [Option.map_some, Option.bind_some, ExtTreeMap.getElem?_map]

theorem NoEmpty.mapValues {υ : Type} (h : m.NoEmpty) (f : τ → υ) : (m.mapValues f).NoEmpty := by
  intro n inner hin
  unfold NestedMap.mapValues at hin
  rw [ExtTreeMap.getElem?_map, Option.map_eq_some_iff] at hin
  obtain ⟨inner', hm, rfl⟩ := hin
  exact fun h0 => h n inner' hm (ExtTreeMap.map_eq_empty_iff.1 h0)

end NestedMap
