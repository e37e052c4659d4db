import Mathlib.Algebra.Group.Nat.Defs
import Mathlib.Data.List.Nodup
import A17.Lib.Ring

/-!
# The buffer pool

`a17/utils/buffer_pool.{h,cpp}`: a block of `bufferCount` buffers, and a ring of `bufferCount + 1`
pointers to those that are free. Pointers and sizes are 64 bits wide and ring positions 16, and the
arithmetic on them wraps as it does there. While the block lies in the address space (`InMemory`)
nothing wraps, and the ring is the queue of `A17.Lib.Ring`.
-/

namespace A17.Utils

abbrev Memory := Nat → UInt8

def memset (mem : Memory) (ptr : Nat) (value : UInt8) (n : Nat) : Memory :=
  fun addr => if ptr ≤ addr ∧ addr < ptr + n then value else mem addr

structure BufferPool where
  pool : Nat
  poolEnd : Nat
  poolSize : Nat
  bufferSize : Nat
  bufferCount : Nat
  ptrs : List Nat
  head : Nat
  tail : Nat
deriving DecidableEq

namespace BufferPool

/-- The constructor; `pool` is the block that `::malloc(poolSize_)` returns. -/
def new (pool bufferSize bufferCount : Nat) : BufferPool :=
  let poolSize := bufferCount * bufferSize % 2 ^ 64
  { pool
    poolEnd := (pool + poolSize) % 2 ^ 64
    poolSize
    bufferSize
    bufferCount
    ptrs := (List.range bufferCount).map (fun i => (pool + i * bufferSize % 2 ^ 64) % 2 ^ 64) ++ [0]
    head := 0
    tail := bufferCount }

variable (b : BufferPool)

def next (pos : Nat) : Nat := (pos + 1) % (b.bufferCount + 1) % 2 ^ 16

/-- The pointer handed out; `os` is what `::malloc(bufferSize_)` returns, if it is called. -/
def malloc (os : Nat) : Nat × BufferPool :=
  if b.head = b.tail then (os, b)
  else (b.ptrs.getD b.head 0, { b with head := b.next b.head })

def calloc (os : Nat) (mem : Memory) : Nat × BufferPool × Memory :=
  let (ptr, b') := b.malloc os
  (ptr, b', if ptr ≠ 0 then memset mem ptr 0 b.bufferSize else mem)

/-- The pool, and the pointer passed on to `::free` if there is one. -/
def free (ptr : Nat) : BufferPool × Option Nat :=
  if ptr < b.pool ∨ b.poolEnd ≤ ptr then (b, some ptr)
  else ({ b with ptrs := b.ptrs.set b.tail ptr, tail := b.next b.tail }, none)

def InPool (ptr : Nat) : Prop := b.pool ≤ ptr ∧ ptr < b.poolEnd

instance (ptr : Nat) : Decidable (b.InPool ptr) := inferInstanceAs (Decidable (_ ∧ _))

/-- The free buffers: the pointers in the ring from `head` up to `tail`. -/
def freeBuffers : List Nat := Ring.contents b.ptrs b.head b.tail

def buffers : List Nat := (List.range b.bufferCount).map fun i => b.pool + i * b.bufferSize

/-- The block lies in the address space, end included. -/
def InMemory (pool bufferSize bufferCount : Nat) : Prop := pool + bufferCount * bufferSize < 2 ^ 64

instance (pool bufferSize bufferCount : Nat) : Decidable (InMemory pool bufferSize bufferCount) :=
  inferInstanceAs (Decidable (_ < _))

structure Inv : Prop where
  count_lt : b.bufferCount < 2 ^ 16
  size_pos : 0 < b.bufferSize
  poolEnd_eq : b.poolEnd = b.pool + b.bufferCount * b.bufferSize
  length_ptrs : b.ptrs.length = b.bufferCount + 1
  head_le : b.head ≤ b.bufferCount
  tail_le : b.tail ≤ b.bufferCount

variable {b} {os ptr : Nat}

/-! ## The block -/

@[simp] theorem inPool_malloc_snd : (b.malloc os).2.InPool ptr ↔ b.InPool ptr := by
  unfold malloc; split <;> rfl

@[simp] theorem buffers_malloc : (b.malloc os).2.buffers = b.buffers := by unfold malloc; split <;> rfl

@[simp] theorem inPool_free {ptr' : Nat} : (b.free ptr').1.InPool ptr ↔ b.InPool ptr := by
  unfold free; split <;> rfl

@[simp] theorem buffers_free : (b.free ptr).1.buffers = b.buffers := by unfold free; split <;> rfl

@[simp] theorem length_buffers : b.buffers.length = b.bufferCount := by simp [buffers]

theorem nodup_buffers (h : 0 < b.bufferSize) : b.buffers.Nodup := by
  refine List.Nodup.map (fun i j hij => ?_) List.nodup_range
  exact Nat.eq_of_mul_eq_mul_right h (Nat.add_left_cancel hij)

theorem Inv.inPool_of_mem (h : b.Inv) (hp : ptr ∈ b.buffers) : b.InPool ptr := by
  obtain ⟨i, hi, rfl⟩ := List.mem_map.1 hp
  have hlast : (i + 1) * b.bufferSize ≤ b.bufferCount * b.bufferSize :=
    Nat.mul_le_mul_right _ (List.mem_range.1 hi)
  have hsize := h.size_pos
  rw [Nat.succ_mul] at hlast
  rw [InPool, h.poolEnd_eq]
  omega

/-! ## The ring -/

theorem free_of_inPool (h : b.InPool ptr) :
    b.free ptr = ({ b with ptrs := b.ptrs.set b.tail ptr, tail := b.next b.tail }, none) :=
  if_neg (by unfold InPool at h; omega)

theorem free_of_not_inPool (h : ¬ b.InPool ptr) : b.free ptr = (b, some ptr) :=
  if_pos (by unfold InPool at h; omega)

namespace Inv

theorem next_eq (h : b.Inv) (pos : Nat) : b.next pos = Ring.next b.ptrs.length pos := by
  rw [next, h.length_ptrs, Ring.next]
  refine Nat.mod_eq_of_lt ?_
  have := Nat.mod_lt (pos + 1) (show 0 < b.bufferCount + 1 by omega)
  have := h.count_lt
  omega

theorem next_le (h : b.Inv) (pos : Nat) : b.next pos ≤ b.bufferCount := by
  have hlt := Ring.next_lt (show 0 < b.ptrs.length by rw [h.length_ptrs]; omega) pos
  rw [h.next_eq]
  rw [h.length_ptrs] at hlt ⊢
  omega

theorem head_lt (h : b.Inv) : b.head < b.ptrs.length := by
  rw [h.length_ptrs]; exact Nat.lt_succ_of_le h.head_le

theorem tail_lt (h : b.Inv) : b.tail < b.ptrs.length := by
  rw [h.length_ptrs]; exact Nat.lt_succ_of_le h.tail_le

theorem freeBuffers_eq_nil_iff (h : b.Inv) : b.freeBuffers = [] ↔ b.head = b.tail := by
  rw [← List.length_eq_zero_iff, freeBuffers, Ring.length_contents (Nat.zero_lt_of_lt h.head_lt),
    Ring.size_eq_zero_iff h.head_lt h.tail_lt]

theorem malloc (h : b.Inv) : (b.malloc os).2.Inv := by
  unfold BufferPool.malloc
  split
  · exact h
  · exact { h with head_le := h.next_le _ }

theorem malloc_of_nil (h : b.Inv) (hnil : b.freeBuffers = []) : b.malloc os = (os, b) :=
  if_pos (h.freeBuffers_eq_nil_iff.1 hnil)

theorem malloc_of_ne_nil (h : b.Inv) (os : Nat) (hne : b.freeBuffers ≠ []) :
    b.freeBuffers = (b.malloc os).1 :: (b.malloc os).2.freeBuffers := by
  have hne' : b.head ≠ b.tail := fun heq => hne (h.freeBuffers_eq_nil_iff.2 heq)
  rw [BufferPool.malloc, if_neg hne', freeBuffers, Ring.contents_pop h.head_lt h.tail_lt hne']
  simp only [freeBuffers, h.next_eq, List.getD_eq_getElem?_getD, List.getElem?_eq_getElem h.head_lt,
    Option.getD_some]

theorem free (h : b.Inv) : (b.free ptr).1.Inv := by
  unfold BufferPool.free
  split
  · exact h
  · exact { h with length_ptrs := by rw [List.length_set, h.length_ptrs], tail_le := h.next_le _ }

theorem next_tail_ne (h : b.Inv) (hlt : b.freeBuffers.length < b.bufferCount) : b.next b.tail ≠ b.head := by
  rw [freeBuffers, Ring.length_contents (Nat.zero_lt_of_lt h.head_lt)] at hlt
  rw [h.next_eq]
  refine Ring.next_tail_ne_head h.head_lt h.tail_lt ?_
  rw [h.length_ptrs] at hlt ⊢
  omega

theorem freeBuffers_free (h : b.Inv) (hlt : b.freeBuffers.length < b.bufferCount) (hin : b.InPool ptr) :
    (b.free ptr).1.freeBuffers = b.freeBuffers ++ [ptr] := by
  have hne := h.next_tail_ne hlt
  rw [h.next_eq] at hne
  rw [free_of_inPool hin, freeBuffers, h.next_eq]
  exact Ring.contents_push h.head_lt h.tail_lt hne ptr

end Inv

/-! ## A new pool -/

theorem inv_new {pool bufferSize bufferCount : Nat} (hsize : 0 < bufferSize) (hcount : bufferCount ≤ 65535)
    (hmem : InMemory pool bufferSize bufferCount) : (new pool bufferSize bufferCount).Inv where
  count_lt := Nat.lt_succ_of_le hcount
  size_pos := hsize
  poolEnd_eq := by
    unfold InMemory at hmem
    simp only [new]
    rw [Nat.mod_eq_of_lt (a := bufferCount * bufferSize) (by omega), Nat.mod_eq_of_lt (by omega)]
  length_ptrs := by simp [new]
  head_le := Nat.zero_le _
  tail_le := Nat.le_refl _

theorem freeBuffers_new {pool bufferSize bufferCount : Nat} (hmem : InMemory pool bufferSize bufferCount) :
    (new pool bufferSize bufferCount).freeBuffers = (new pool bufferSize bufferCount).buffers := by
  have haddr : ∀ i < bufferCount, (pool + i * bufferSize % 2 ^ 64) % 2 ^ 64 = pool + i * bufferSize := by
    intro i hi
    have := Nat.mul_le_mul_right bufferSize (Nat.le_of_lt hi)
    unfold InMemory at hmem
    rw [Nat.mod_eq_of_lt (a := i * bufferSize) (by omega), Nat.mod_eq_of_lt (by omega)]
  have hptrs : (new pool bufferSize bufferCount).ptrs = (new pool bufferSize bufferCount).buffers ++ [0] :=
    congrArg (· ++ [0]) (List.map_congr_left fun i hi => haddr i (List.mem_range.1 hi))
  have htail : (new pool bufferSize bufferCount).tail = (new pool bufferSize bufferCount).buffers.length :=
    (length_buffers (b := new pool bufferSize bufferCount)).symm
  rw [freeBuffers, hptrs, htail]
  exact Ring.contents_concat _ 0

end BufferPool
end A17.Utils
