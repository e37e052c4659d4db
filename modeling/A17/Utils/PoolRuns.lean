import Mathlib.Data.List.Perm.Basic
import A17.Utils.BufferPool

/-!
# Runs of a buffer pool

A pool and its clients, one call at a time. The clients free only what they hold (`Valid`); the pool
then keeps account of its buffers (`Accounts`): each of them is either in the ring or with a client, and
they are handed out in the order in which they came back. The argument is an invariant of the calls
(`PoolState.Inv`): what was handed out followed by the ring is all buffers followed by what was
returned.
-/

namespace A17.Utils

inductive PoolOp where
  | malloc (os : Nat)
  | calloc (os : Nat) (mem : Memory)
  | free (ptr : Nat)

structure PoolState where
  pool : BufferPool
  outstanding : List Nat := []
  served : List Nat := []
  /-- The pointers into the block that were freed, in order. -/
  returned : List Nat := []

namespace PoolState
variable (s : PoolState)

def handOut (ptr : Nat) (pool : BufferPool) : PoolState :=
  { s with
    pool
    outstanding := ptr :: s.outstanding
    served := if s.pool.InPool ptr then s.served ++ [ptr] else s.served }

def step : PoolOp → PoolState
  | .malloc os => s.handOut (s.pool.malloc os).1 (s.pool.malloc os).2
  | .calloc os mem => s.handOut (s.pool.calloc os mem).1 (s.pool.calloc os mem).2.1
  | .free ptr =>
    { s with
      pool := (s.pool.free ptr).1
      outstanding := s.outstanding.erase ptr
      returned := if s.pool.InPool ptr then s.returned ++ [ptr] else s.returned }

def run (ops : List PoolOp) : PoolState := ops.foldl step s

/-- The OS allocates outside the block, and clients free what they hold. -/
def Admissible : PoolOp → Prop
  | .malloc os => ¬ s.pool.InPool os
  | .calloc os _ => ¬ s.pool.InPool os
  | .free ptr => ptr ∈ s.outstanding

instance : (op : PoolOp) → Decidable (s.Admissible op)
  | .malloc _ => inferInstanceAs (Decidable (¬ _))
  | .calloc _ _ => inferInstanceAs (Decidable (¬ _))
  | .free _ => inferInstanceAs (Decidable (_ ∈ _))

def Valid : PoolState → List PoolOp → Prop
  | _, [] => True
  | s, op :: ops => s.Admissible op ∧ Valid (s.step op) ops

instance decidableValid : (s : PoolState) → (ops : List PoolOp) → Decidable (s.Valid ops)
  | _, [] => inferInstanceAs (Decidable True)
  | s, op :: ops =>
    haveI := decidableValid (s.step op) ops
    inferInstanceAs (Decidable (s.Admissible op ∧ Valid (s.step op) ops))

def held : List Nat := s.outstanding.filter s.pool.InPool

structure Accounts (b : BufferPool) (s : PoolState) : Prop where
  distinct : b.buffers.Nodup
  conserved : (s.pool.freeBuffers ++ s.held).Perm b.buffers
  head_le : s.pool.head ≤ b.bufferCount
  tail_le : s.pool.tail ≤ b.bufferCount
  inPool_malloc : ∀ os, ¬ s.pool.InPool os →
    (s.pool.InPool (s.pool.malloc os).1 ↔ ∃ ptr ∈ b.buffers, ptr ∉ s.outstanding)
  /-- Buffers are handed out from the front of the queue of all buffers and the ones returned since. -/
  malloc_front : ∀ os, s.pool.InPool (s.pool.malloc os).1 → ¬ s.pool.InPool os →
    ((b.buffers ++ s.returned).drop s.served.length).head? = some (s.pool.malloc os).1
  calloc_malloc : ∀ os mem, ((s.pool.calloc os mem).1, (s.pool.calloc os mem).2.1) = s.pool.malloc os
  free_inPool : ∀ ptr ∈ s.outstanding, s.pool.InPool ptr →
    (s.pool.free ptr).2 = none ∧ (s.pool.free ptr).1.freeBuffers = s.pool.freeBuffers ++ [ptr]
  free_os : ∀ ptr ∈ s.outstanding, ¬ s.pool.InPool ptr → s.pool.free ptr = (s.pool, some ptr)
  not_overwritten : ∀ ptr ∈ s.outstanding, s.pool.InPool ptr →
    s.pool.tail ∉ Ring.slots s.pool.ptrs.length s.pool.head s.pool.tail ∧
      s.pool.next s.pool.tail ≠ s.pool.head

structure Inv (b : BufferPool) (s : PoolState) : Prop where
  pool_inv : s.pool.Inv
  buffers_eq : s.pool.buffers = b.buffers
  conserved : (s.pool.freeBuffers ++ s.held).Perm s.pool.buffers
  queue : s.served ++ s.pool.freeBuffers = s.pool.buffers ++ s.returned

variable {s} {b : BufferPool} {ptr os : Nat}

namespace Inv

theorem bufferCount_eq (h : Inv b s) : s.pool.bufferCount = b.bufferCount := by
  have := congrArg List.length h.buffers_eq
  rwa [BufferPool.length_buffers, BufferPool.length_buffers] at this

theorem inPool_of_mem_freeBuffers (h : Inv b s) (hp : ptr ∈ s.pool.freeBuffers) : s.pool.InPool ptr :=
  h.pool_inv.inPool_of_mem (h.conserved.subset (List.mem_append_left _ hp))

theorem length_freeBuffers_lt (h : Inv b s) (hp : ptr ∈ s.outstanding) (hin : s.pool.InPool ptr) :
    s.pool.freeBuffers.length < s.pool.bufferCount := by
  have hheld : ptr ∈ s.held := List.mem_filter.2 ⟨hp, by simpa using hin⟩
  have hlen := h.conserved.length_eq
  have hpos := List.length_pos_of_mem hheld
  rw [List.length_append, BufferPool.length_buffers] at hlen
  omega

theorem freeBuffers_free (h : Inv b s) (hp : ptr ∈ s.outstanding) (hin : s.pool.InPool ptr) :
    (s.pool.free ptr).1.freeBuffers = s.pool.freeBuffers ++ [ptr] :=
  h.pool_inv.freeBuffers_free (h.length_freeBuffers_lt hp hin) hin

theorem inPool_malloc_iff (h : Inv b s) (hos : ¬ s.pool.InPool os) :
    s.pool.InPool (s.pool.malloc os).1 ↔ s.pool.freeBuffers ≠ [] := by
  constructor
  · intro hin hnil
    rw [h.pool_inv.malloc_of_nil hnil] at hin
    exact hos hin
  · intro hne
    refine h.inPool_of_mem_freeBuffers ?_
    rw [h.pool_inv.malloc_of_ne_nil os hne]
    exact List.mem_cons_self

theorem malloc (h : Inv b s) (hos : ¬ s.pool.InPool os) :
    Inv b (s.handOut (s.pool.malloc os).1 (s.pool.malloc os).2) := by
  by_cases hnil : s.pool.freeBuffers = []
  · rw [h.pool_inv.malloc_of_nil hnil]
    refine ⟨h.pool_inv, h.buffers_eq, ?_, ?_⟩
    · simpa [handOut, held, hos] using h.conserved
    · simpa [handOut, hos] using h.queue
  · have hcons := h.pool_inv.malloc_of_ne_nil os hnil
    have hin := (h.inPool_malloc_iff hos).2 hnil
    refine ⟨h.pool_inv.malloc, BufferPool.buffers_malloc.trans h.buffers_eq, ?_, ?_⟩
    · -- the front of the ring becomes the last buffer handed out
      have hperm := h.conserved
      rw [hcons] at hperm
      have hheld : (s.handOut (s.pool.malloc os).1 (s.pool.malloc os).2).held = (s.pool.malloc os).1 :: s.held := by
        simp [handOut, held, hin]
      rw [hheld]
      simp only [handOut, BufferPool.buffers_malloc]
      exact List.perm_middle.trans hperm
    · have hqueue := h.queue
      rw [hcons] at hqueue
      simpa [handOut, hin] using hqueue

theorem free (h : Inv b s) (hp : ptr ∈ s.outstanding) : Inv b (s.step (.free ptr)) := by
  have hheld : (s.step (.free ptr)).held = s.held.erase ptr := by
    simp [step, held, List.erase_filter]
  refine ⟨h.pool_inv.free, BufferPool.buffers_free.trans h.buffers_eq, ?_, ?_⟩
  · rw [hheld]
    simp only [step, BufferPool.buffers_free]
    by_cases hin : s.pool.InPool ptr
    · have hmem : ptr ∈ s.held := List.mem_filter.2 ⟨hp, by simpa using hin⟩
      rw [h.freeBuffers_free hp hin, List.append_assoc]
      exact ((List.perm_cons_erase hmem).symm.append_left _).trans h.conserved
    · have hmem : ptr ∉ s.held := fun hmem => hin (by simpa using (List.mem_filter.1 hmem).2)
      rw [BufferPool.free_of_not_inPool hin, List.erase_of_not_mem hmem]
      exact h.conserved
  · by_cases hin : s.pool.InPool ptr
    · simp only [step, BufferPool.buffers_free, if_pos hin, h.freeBuffers_free hp hin]
      rw [← List.append_assoc, h.queue, List.append_assoc]
    · simpa only [step, BufferPool.free_of_not_inPool hin, if_neg hin] using h.queue

theorem step (h : Inv b s) {op : PoolOp} (hop : s.Admissible op) : Inv b (s.step op) := by
  cases op with
  | malloc os => exact h.malloc hop
  | calloc os mem => exact h.malloc hop
  | free ptr => exact h.free hop

theorem run (h : Inv b s) {ops : List PoolOp} (hops : s.Valid ops) : Inv b (s.run ops) := by
  induction ops generalizing s with
  | nil => exact h
  | cons op ops ih => exact ih (h.step hops.1) hops.2

theorem init {pool bufferSize bufferCount : Nat} (hsize : 0 < bufferSize) (hcount : bufferCount ≤ 65535)
    (hmem : BufferPool.InMemory pool bufferSize bufferCount) :
    Inv (.new pool bufferSize bufferCount) { pool := .new pool bufferSize bufferCount } where
  pool_inv := BufferPool.inv_new hsize hcount hmem
  buffers_eq := rfl
  conserved := by simp [held, BufferPool.freeBuffers_new hmem]
  queue := by simp [BufferPool.freeBuffers_new hmem]

theorem freeBuffers_ne_nil_iff (h : Inv b s) :
    s.pool.freeBuffers ≠ [] ↔ ∃ ptr ∈ s.pool.buffers, ptr ∉ s.outstanding := by
  have hnodup := h.conserved.nodup_iff.2 (BufferPool.nodup_buffers h.pool_inv.size_pos)
  constructor
  · intro hne
    obtain ⟨ptr, l, hl⟩ := List.exists_cons_of_ne_nil hne
    have hmem : ptr ∈ s.pool.freeBuffers := hl ▸ List.mem_cons_self
    refine ⟨ptr, h.conserved.subset (List.mem_append_left _ hmem), fun hout => ?_⟩
    have hheld : ptr ∈ s.held := List.mem_filter.2 ⟨hout, by simpa using h.inPool_of_mem_freeBuffers hmem⟩
    exact (List.disjoint_of_nodup_append hnodup) hmem hheld
  · rintro ⟨ptr, hptr, hout⟩ hnil
    have hmem := h.conserved.symm.subset hptr
    rw [hnil, List.nil_append] at hmem
    exact hout (List.mem_filter.1 hmem).1

theorem accounts (h : Inv b s) : Accounts b s where
  distinct := h.buffers_eq ▸ BufferPool.nodup_buffers h.pool_inv.size_pos
  conserved := h.buffers_eq ▸ h.conserved
  head_le := h.bufferCount_eq ▸ h.pool_inv.head_le
  tail_le := h.bufferCount_eq ▸ h.pool_inv.tail_le
  inPool_malloc := fun os hos => by
    rw [h.inPool_malloc_iff hos, h.freeBuffers_ne_nil_iff, h.buffers_eq]
  malloc_front := fun os hin hos => by
    have hcons := h.pool_inv.malloc_of_ne_nil os ((h.inPool_malloc_iff hos).1 hin)
    rw [← h.buffers_eq, ← h.queue, List.drop_left, hcons]
    rfl
  calloc_malloc := fun _ _ => rfl
  free_inPool := fun ptr hp hin =>
    ⟨congrArg Prod.snd (BufferPool.free_of_inPool hin), h.freeBuffers_free hp hin⟩
  free_os := fun _ _ hin => BufferPool.free_of_not_inPool hin
  not_overwritten := fun ptr hp hin =>
    ⟨Ring.tail_notMem_slots h.pool_inv.head_lt h.pool_inv.tail_lt,
      h.pool_inv.next_tail_ne (h.length_freeBuffers_lt hp hin)⟩

end Inv

/-- A pool whose block lies in the address space accounts for its buffers, whatever its clients do. -/
theorem buffers_conserved (pool bufferSize bufferCount : Nat) (hsize : 0 < bufferSize)
    (hcount : bufferCount ≤ 65535) (hmem : BufferPool.InMemory pool bufferSize bufferCount)
    (ops : List PoolOp) (hops : Valid { pool := .new pool bufferSize bufferCount } ops) :
    Accounts (.new pool bufferSize bufferCount) (run { pool := .new pool bufferSize bufferCount } ops) :=
  ((Inv.init hsize hcount hmem).run hops).accounts

theorem buffers_conserved_four :
    Accounts (.new 4096 64 4) (run { pool := .new 4096 64 4 }
      [.malloc 1, .malloc 1, .calloc 1 (fun _ => 7), .malloc 1, .malloc 8192, .free 4160, .free 8192,
        .free 4288, .malloc 1]) :=
  buffers_conserved 4096 64 4 (by decide) (by decide) (by decide) _ (by decide)

/-- Two buffers of 2^63 bytes make a block of size 0: the first buffer, once freed, goes to the OS. -/
theorem buffer_lost_of_wrap :
    Valid { pool := .new 4096 (2 ^ 63) 2 } [.malloc 1, .free 4096] ∧
      ¬ Accounts (.new 4096 (2 ^ 63) 2) (run { pool := .new 4096 (2 ^ 63) 2 } [.malloc 1, .free 4096]) := by
  refine ⟨by decide, fun h => ?_⟩
  have hlen := h.conserved.length_eq
  revert hlen
  decide

end PoolState
end A17.Utils
