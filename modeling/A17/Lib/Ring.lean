import Mathlib.Data.List.Basic
import Mathlib.Data.List.Range

/-!
# Circular queues

A ring of `cap` slots with a head and a tail: the occupied slots go from the head up to the tail, round
the end of the ring. At most `cap - 1` slots are occupied, so that head and tail are equal exactly when
the queue is empty.
-/

namespace Ring
variable {cap head tail : Nat}

def next (cap pos : Nat) : Nat := (pos + 1) % cap

def size (cap head tail : Nat) : Nat := (tail + cap - head) % cap

/-- The occupied slots, from the head. -/
def slots (cap head tail : Nat) : List Nat := (List.range (size cap head tail)).map fun i => (head + i) % cap

def contents {α : Type} (ring : List α) (head tail : Nat) : List α :=
  (slots ring.length head tail).filterMap (ring[·]?)

theorem next_lt (hc : 0 < cap) (pos : Nat) : next cap pos < cap := Nat.mod_lt _ hc

theorem next_eq (h : head < cap) : next cap head = if head + 1 = cap then 0 else head + 1 := by
  unfold next
  split
  · next h' => rw [h', Nat.mod_self]
  · exact Nat.mod_eq_of_lt (by omega)

theorem size_eq (hh : head < cap) (ht : tail < cap) :
    size cap head tail = if head ≤ tail then tail - head else tail + cap - head := by
  unfold size
  split
  · rw [show tail + cap - head = tail - head + cap by omega, Nat.add_mod_right, Nat.mod_eq_of_lt (by omega)]
  · exact Nat.mod_eq_of_lt (by omega)

theorem size_eq_zero_iff (hh : head < cap) (ht : tail < cap) : size cap head tail = 0 ↔ head = tail := by
  rw [size_eq hh ht]; split <;> omega

theorem length_slots : (slots cap head tail).length = size cap head tail := by simp [slots]

theorem size_pop (hh : head < cap) (ht : tail < cap) (hne : head ≠ tail) :
    size cap head tail = size cap (next cap head) tail + 1 := by
  rw [size_eq hh ht, size_eq (next_lt (by omega) _) ht, next_eq hh]
  split <;> split <;> split <;> omega

theorem size_push (hh : head < cap) (ht : tail < cap) (hne : next cap tail ≠ head) :
    size cap head (next cap tail) = size cap head tail + 1 := by
  rw [next_eq ht] at hne
  rw [size_eq hh (next_lt (by omega) _), size_eq hh ht, next_eq ht]
  split at hne <;> split <;> split <;> split <;> omega

theorem next_tail_eq_head_iff (hh : head < cap) (ht : tail < cap) :
    next cap tail = head ↔ size cap head tail + 1 = cap := by
  rw [size_eq hh ht, next_eq ht]
  split <;> split <;> omega

/-- There is room for one more as long as fewer than `cap - 1` slots are occupied. -/
theorem next_tail_ne_head (hh : head < cap) (ht : tail < cap) (h : size cap head tail + 1 < cap) :
    next cap tail ≠ head := by
  rw [ne_eq, next_tail_eq_head_iff hh ht]
  omega

theorem slots_pop (hh : head < cap) (ht : tail < cap) (hne : head ≠ tail) :
    slots cap head tail = head :: slots cap (next cap head) tail := by
  have hstep : ∀ i, (head + (i + 1)) % cap = (next cap head + i) % cap := by
    intro i
    rw [next, Nat.mod_add_mod]
    congr 1; omega
  rw [slots, size_pop hh ht hne, List.range_succ_eq_map, List.map_cons, List.map_map, slots]
  simp only [Nat.add_zero, Nat.mod_eq_of_lt hh]
  congr 1
  exact List.map_congr_left fun i _ => hstep i

theorem slots_push (hh : head < cap) (ht : tail < cap) (hne : next cap tail ≠ head) :
    slots cap head (next cap tail) = slots cap head tail ++ [tail] := by
  have hlast : (head + size cap head tail) % cap = tail := by
    rw [size_eq hh ht]
    split
    · rw [show head + (tail - head) = tail by omega, Nat.mod_eq_of_lt ht]
    · rw [show head + (tail + cap - head) = tail + cap by omega, Nat.add_mod_right, Nat.mod_eq_of_lt ht]
  rw [slots, size_push hh ht hne, List.range_succ, List.map_append, List.map_singleton, hlast, slots]

theorem tail_notMem_slots (hh : head < cap) (ht : tail < cap) : tail ∉ slots cap head tail := by
  intro hmem
  obtain ⟨i, hi, heq⟩ := List.mem_map.1 hmem
  rw [List.mem_range, size_eq hh ht] at hi
  by_cases hlt : head + i < cap
  · rw [Nat.mod_eq_of_lt hlt] at heq
    split at hi <;> omega
  · rw [show head + i = head + i - cap + cap by omega, Nat.add_mod_right,
      Nat.mod_eq_of_lt (by split at hi <;> omega)] at heq
    split at hi <;> omega

theorem slots_lt (hc : 0 < cap) {i : Nat} (h : i ∈ slots cap head tail) : i < cap := by
  obtain ⟨j, -, rfl⟩ := List.mem_map.1 h
  exact Nat.mod_lt _ hc

section
variable {α : Type} {ring : List α}

theorem length_contents (hc : 0 < ring.length) : (contents ring head tail).length = size ring.length head tail := by
  have hsome : ∀ i ∈ slots ring.length head tail, (ring[i]?).isSome := by
    intro i hi
    simpa using slots_lt hc hi
  rw [contents, ← length_slots]
  exact List.filterMap_length_eq_length.2 hsome

theorem contents_pop (hh : head < ring.length) (ht : tail < ring.length) (hne : head ≠ tail) :
    contents ring head tail = ring[head] :: contents ring (next ring.length head) tail := by
  rw [contents, slots_pop hh ht hne, List.filterMap_cons, List.getElem?_eq_getElem hh]
  rfl

theorem contents_push (hh : head < ring.length) (ht : tail < ring.length) (hne : next ring.length tail ≠ head)
    (x : α) :
    contents (ring.set tail x) head (next ring.length tail) = contents ring head tail ++ [x] := by
  have hold : (slots ring.length head tail).filterMap ((ring.set tail x)[·]?) =
      (slots ring.length head tail).filterMap (ring[·]?) := by
    refine List.filterMap_congr fun i hi => ?_
    rw [List.getElem?_set_ne]
    rintro rfl
    exact tail_notMem_slots hh ht hi
  rw [contents, List.length_set, slots_push hh ht hne, List.filterMap_append, hold, contents]
  simp [ht]

theorem filterMap_getElem?_range (l : List α) (k : Nat) : (List.range k).filterMap (l[·]?) = l.take k := by
  induction k with
  | zero => rfl
  | succ k ih =>
    rw [List.range_succ, List.filterMap_append, ih, List.take_add_one]
    cases h : l[k]? <;> simp [h]

theorem contents_concat (l : List α) (x : α) : contents (l ++ [x]) 0 l.length = l := by
  have hslots : slots (l ++ [x]).length 0 l.length = List.range l.length := by
    rw [slots, size_eq (by simp) (by simp), if_pos (Nat.zero_le _), Nat.sub_zero]
    refine (List.map_congr_left fun i hi => ?_).trans (List.map_id _)
    rw [List.mem_range] at hi
    simp only [Nat.zero_add, List.length_append, List.length_singleton, id_eq]
    exact Nat.mod_eq_of_lt (by omega)
  rw [contents, hslots, filterMap_getElem?_range, List.take_left]

end
end Ring
