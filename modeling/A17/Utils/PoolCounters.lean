import A17.Utils.PoolRuns

/-!
# The counters of a buffer pool

`empty`, `full` and `remaining` are read off the two ring positions. `empty` and `full` are right in every state.
`remaining` takes `head_ == tail_` for a ring that has gone round once, although it is the ring with nothing in it:
of an exhausted pool it says `bufferCount + 1`, which is 0 only if it wraps.
-/

namespace A17.Utils
namespace BufferPool
variable (b : BufferPool)

def empty : Bool := b.head = b.tail

def full : Bool := b.next b.tail = b.head

def remaining : Nat :=
  if b.tail > b.head then b.tail - b.head else (b.bufferCount - (b.head - b.tail) + 1) % 2 ^ 16

variable {b}

theorem Inv.length_freeBuffers (h : b.Inv) : b.freeBuffers.length = Ring.size (b.bufferCount + 1) b.head b.tail := by
  rw [freeBuffers, Ring.length_contents (Nat.zero_lt_of_lt h.head_lt), h.length_ptrs]

theorem Inv.full_iff (h : b.Inv) : b.full = true ↔ b.freeBuffers.length = b.bufferCount := by
  rw [full, decide_eq_true_iff, h.next_eq, Ring.next_tail_eq_head_iff h.head_lt h.tail_lt, h.length_freeBuffers,
    h.length_ptrs]
  omega

/-- `remaining` is the number of free buffers, but for the exhausted pool. -/
theorem Inv.remaining_eq (h : b.Inv) : b.remaining =
    if b.freeBuffers = [] then (b.bufferCount + 1) % 2 ^ 16 else b.freeBuffers.length := by
  have hcount := h.count_lt
  have hhead := h.head_le
  have htail := h.tail_le
  have hsize := Ring.size_eq (Nat.lt_succ_of_le hhead) (Nat.lt_succ_of_le htail)
  rw [remaining, h.length_freeBuffers, hsize]
  split
  · next hlt => rw [if_neg fun hnil => by have := h.freeBuffers_eq_nil_iff.1 hnil; omega, if_pos hlt.le]
  · next hle =>
    split
    · next hnil =>
      rw [h.freeBuffers_eq_nil_iff] at hnil
      rw [hnil, Nat.sub_self, Nat.sub_zero]
    · next hne =>
      rw [h.freeBuffers_eq_nil_iff] at hne
      rw [if_neg (by omega), Nat.mod_eq_of_lt (by omega)]
      omega

end BufferPool

namespace PoolState

/-- The buffers of the pool that no client holds. -/
def unused (s : PoolState) : List Nat := s.pool.buffers.filter fun ptr => !s.outstanding.contains ptr

structure Exact (s : PoolState) : Prop where
  remaining : s.pool.remaining = s.unused.length
  empty : s.pool.empty = true ↔ s.unused.length = 0
  full : s.pool.full = true ↔ s.unused.length = s.pool.bufferCount

variable {s : PoolState} {b : BufferPool}

/-- What no client holds is in the ring. -/
theorem Inv.perm_unused (h : Inv b s) : s.unused.Perm s.pool.freeBuffers := by
  have hnodup := h.conserved.nodup_iff.2 (BufferPool.nodup_buffers h.pool_inv.size_pos)
  have hfree : ∀ ptr ∈ s.pool.freeBuffers, (!s.outstanding.contains ptr) = true := by
    intro ptr hptr
    have hout : ptr ∉ s.outstanding := fun hout =>
      List.disjoint_of_nodup_append hnodup hptr
        (List.mem_filter.2 ⟨hout, by simpa using h.inPool_of_mem_freeBuffers hptr⟩)
    simpa using hout
  have hheld : ∀ ptr ∈ s.held, ¬ (!s.outstanding.contains ptr) = true := by
    intro ptr hptr
    simpa using (List.mem_filter.1 hptr).1
  have hperm := h.conserved.symm.filter fun ptr => !s.outstanding.contains ptr
  rwa [List.filter_append, List.filter_eq_self.2 hfree, List.filter_eq_nil_iff.2 hheld, List.append_nil] at hperm

theorem Inv.exact_iff (h : Inv b s) :
    s.Exact ↔ (∃ ptr ∈ s.pool.buffers, ptr ∉ s.outstanding) ∨ s.pool.bufferCount = 65535 := by
  have hlen := h.perm_unused.length_eq
  have hrem := h.pool_inv.remaining_eq
  have hcount := h.pool_inv.count_lt
  rw [← h.freeBuffers_ne_nil_iff]
  constructor
  · intro hexact
    by_contra hnot
    rw [not_or, not_not] at hnot
    have := hexact.remaining
    rw [hrem, if_pos hnot.1, hlen, hnot.1, List.length_nil] at this
    omega
  · intro hcond
    refine ⟨?_, ?_, ?_⟩
    · rw [hrem, hlen]
      split
      · next hnil =>
        have : s.pool.bufferCount = 65535 := hcond.resolve_left (not_not.2 hnil)
        rw [this, hnil]
        rfl
      · rfl
    · rw [hlen, List.length_eq_zero_iff, h.pool_inv.freeBuffers_eq_nil_iff, BufferPool.empty, decide_eq_true_iff]
    · rw [hlen]
      exact h.pool_inv.full_iff

/-- In every run the counters are exact in the state reached exactly if a buffer is left in the pool, or the pool
is of the one size at which `remaining` wraps to 0. -/
theorem counters_exact_iff (pool bufferSize bufferCount : Nat) (hsize : 0 < bufferSize)
    (hcount : bufferCount ≤ 65535) (hmem : BufferPool.InMemory pool bufferSize bufferCount)
    (ops : List PoolOp) (hops : Valid { pool := .new pool bufferSize bufferCount } ops) :
    let s := run { pool := .new pool bufferSize bufferCount } ops
    s.Exact ↔
      (∃ ptr ∈ (BufferPool.new pool bufferSize bufferCount).buffers, ptr ∉ s.outstanding) ∨ bufferCount = 65535 := by
  have h := (Inv.init hsize hcount hmem).run hops
  have hcounts := h.bufferCount_eq
  simp only [h.exact_iff, h.buffers_eq, hcounts]
  rfl

theorem counters_exact_iff_four :
    let s := run { pool := .new 4096 64 4 } [.malloc 1, .malloc 1, .free 4096]
    s.Exact ↔ (∃ ptr ∈ (BufferPool.new 4096 64 4).buffers, ptr ∉ s.outstanding) ∨ 4 = 65535 :=
  counters_exact_iff 4096 64 4 (by decide) (by decide) (by decide) _ (by decide)

/-- A pool of one buffer, and the buffer is out: two remain. -/
theorem remaining_of_exhausted :
    Valid { pool := .new 4096 64 1 } [.malloc 1] ∧ ¬ Exact (run { pool := .new 4096 64 1 } [.malloc 1]) := by
  refine ⟨by decide, fun h => ?_⟩
  have hrem := h.remaining
  revert hrem
  decide

end PoolState
end A17.Utils
