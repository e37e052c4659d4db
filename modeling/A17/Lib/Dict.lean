import Mathlib.Data.List.Nodup

/-!
# Dicts in insertion order

A dict is the list of its items in the order their keys came in. Keys are looked up with `List.lookup`;
`update` changes the value of a key that is there, `set` adds the key at the end if it is not, `del` takes
it out.
-/

set_option linter.unusedSectionVars false

namespace Dict
variable {κ ν : Type} [BEq κ] [LawfulBEq κ] [DecidableEq κ]

def keys (d : List (κ × ν)) : List κ := d.map Prod.fst

def update (d : List (κ × ν)) (k : κ) (f : ν → ν) : List (κ × ν) :=
  d.map fun e => if e.1 = k then (e.1, f e.2) else e

def set (d : List (κ × ν)) (k : κ) (v : ν) : List (κ × ν) :=
  if (d.lookup k).isSome then update d k fun _ => v else d ++ [(k, v)]

def del (d : List (κ × ν)) (k : κ) : List (κ × ν) := d.filter fun e => e.1 ≠ k

variable {d : List (κ × ν)} {k k' : κ}

theorem find_cons (a : κ) (v : ν) : ((a, v) :: d).lookup k = if a = k then some v else d.lookup k := by
  rw [List.lookup_cons]
  by_cases h : a = k
  · subst h
    simp
  · have hb : (k == a) = false := by simpa using Ne.symm h
    rw [hb, if_neg h]

theorem mem_keys : k ∈ keys d ↔ (d.lookup k).isSome := by
  induction d with
  | nil => simp [keys]
  | cons e d ih =>
    obtain ⟨a, v⟩ := e
    rw [keys] at ih
    rw [keys, List.map_cons, List.mem_cons, ih, find_cons]
    by_cases h : a = k
    · simp [h]
    · simp [h, Ne.symm h]

@[simp] theorem keys_update (f : ν → ν) : keys (update d k f) = keys d := by
  unfold keys update
  rw [List.map_map]
  refine List.map_congr_left fun e _ => ?_
  simp only [Function.comp_apply]
  split <;> rfl

theorem lookup_update (f : ν → ν) : (update d k f).lookup k' = if k = k' then (d.lookup k').map f else d.lookup k' := by
  induction d with
  | nil => simp [update]
  | cons e d ih =>
    obtain ⟨a, v⟩ := e
    rw [update] at ih
    rw [update, List.map_cons]
    by_cases ha : a = k
    · rw [if_pos ha, find_cons, find_cons, ih]
      split
      · next h => rw [if_pos (ha.symm.trans h), Option.map_some]
      · rfl
    · rw [if_neg ha, find_cons, find_cons, ih]
      split
      · next h => rw [if_neg fun hk => ha (h.trans hk.symm)]
      · rfl

theorem nodup_keys_set (h : (keys d).Nodup) (v : ν) : (keys (set d k v)).Nodup := by
  unfold set
  split
  · rw [keys_update]
    exact h
  · next hk =>
    rw [← mem_keys] at hk
    rw [keys, List.map_append]
    exact h.append (List.nodup_singleton k) (by simpa [keys] using hk)

theorem lookup_set (v : ν) : (set d k v).lookup k' = if k = k' then some v else d.lookup k' := by
  unfold set
  split
  · next h =>
    rw [lookup_update]
    split
    · next hk =>
      subst hk
      obtain ⟨w, hw⟩ := Option.isSome_iff_exists.1 h
      rw [hw, Option.map_some]
    · rfl
  · next h =>
    rw [List.lookup_append, find_cons]
    split
    · next hk =>
      subst hk
      rw [Option.not_isSome_iff_eq_none.1 h, Option.none_or]
    · rw [List.lookup_nil, Option.or_none]

theorem lookup_del : (del d k).lookup k' = if k = k' then none else d.lookup k' := by
  induction d with
  | nil => simp [del]
  | cons e d ih =>
    obtain ⟨a, v⟩ := e
    rw [del] at ih
    rw [del, List.filter_cons]
    by_cases ha : a = k
    · rw [if_neg (by simp [ha]), ih, find_cons, ha]
      split <;> rfl
    · rw [if_pos (by simp [ha]), find_cons, find_cons, ih]
      split
      · next h => rw [if_neg fun hk => ha (h.trans hk.symm)]
      · rfl

theorem del_eq_self (h : d.lookup k = none) : del d k = d := by
  refine List.filter_eq_self.2 fun e he => decide_eq_true ?_
  rintro rfl
  have hmem : (d.lookup e.1).isSome := mem_keys.1 (List.mem_map_of_mem he)
  rw [h] at hmem
  cases hmem

end Dict
