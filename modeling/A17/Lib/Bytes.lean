import Mathlib.Data.Nat.Digits.Defs
import Mathlib.Algebra.BigOperators.Group.List.Basic

/-!
# Little-endian data in a byte buffer

Numbers of a fixed width as bytes, least significant first (`ofNat`), tables of them (`table`,
`readTable`), and a buffer that is filled by stores at given offsets. A store outside the buffer
fails. A buffer filled without gaps from the front is `Packed`, whatever it held before.
-/

namespace Bytes

/-- The `k` lowest bytes of `n`. -/
def ofNat : Nat → Nat → List UInt8
  | 0, _ => []
  | k + 1, n => UInt8.ofNat n :: ofNat k (n / 256)

def toNat (bytes : List UInt8) : Nat := Nat.ofDigits 256 (bytes.map UInt8.toNat)

@[simp] theorem length_ofNat (k n : Nat) : (ofNat k n).length = k := by
  induction k generalizing n with
  | zero => rfl
  | succ k ih => rw [ofNat, List.length_cons, ih]

theorem toNat_ofNat (k n : Nat) : toNat (ofNat k n) = n % 256 ^ k := by
  induction k generalizing n with
  | zero => simp [ofNat, toNat, Nat.mod_one]
  | succ k ih =>
    have hcons : toNat (ofNat (k + 1) n) = n % 256 + 256 * toNat (ofNat k (n / 256)) := by
      simp [ofNat, toNat, Nat.ofDigits_cons]
    rw [hcons, ih, pow_succ', Nat.mod_mul]

theorem toNat_append (bs bs' : List UInt8) : toNat (bs ++ bs') = toNat bs + 256 ^ bs.length * toNat bs' := by
  simp [toNat, Nat.ofDigits_append]

theorem toNat_lt (bytes : List UInt8) : toNat bytes < 256 ^ bytes.length := by
  have h := Nat.ofDigits_lt_base_pow_length (b := 256) (l := bytes.map UInt8.toNat) (by decide) ?_
  · rwa [List.length_map] at h
  · intro x hx
    obtain ⟨b, -, rfl⟩ := List.mem_map.1 hx
    exact b.toNat_lt

theorem ofNat_toNat (bytes : List UInt8) : ofNat bytes.length (toNat bytes) = bytes := by
  induction bytes with
  | nil => rfl
  | cons b bytes ih =>
    have hcons : toNat (b :: bytes) = b.toNat + 256 * toNat bytes := by simp [toNat, Nat.ofDigits_cons]
    have hb := b.toNat_lt
    have hlow : UInt8.ofNat (toNat (b :: bytes)) = b := by
      rw [hcons, ← UInt8.toNat_inj, UInt8.toNat_ofNat']
      omega
    have hhigh : toNat (b :: bytes) / 256 = toNat bytes := by omega
    rw [List.length_cons, ofNat, hlow, hhigh, ih]

/-! ## Tables -/

def table (k : Nat) (ns : List Nat) : List UInt8 := ns.flatMap (ofNat k)

def readTable (k : Nat) : Nat → List UInt8 → List Nat
  | 0, _ => []
  | n + 1, bytes => toNat (bytes.take k) :: readTable k n (bytes.drop k)

variable {k : Nat}

@[simp] theorem length_table (ns : List Nat) : (table k ns).length = k * ns.length := by
  induction ns with
  | nil => rfl
  | cons n ns ih =>
    rw [table, List.flatMap_cons, List.length_append, length_ofNat]
    rw [table] at ih
    rw [ih, List.length_cons, Nat.mul_succ, Nat.add_comm]

theorem table_append (ns ms : List Nat) : table k (ns ++ ms) = table k ns ++ table k ms :=
  List.flatMap_append

@[simp] theorem length_readTable (n : Nat) (bytes : List UInt8) : (readTable k n bytes).length = n := by
  induction n generalizing bytes with
  | zero => rfl
  | succ n ih => rw [readTable, List.length_cons, ih]

theorem lt_of_mem_readTable {n x : Nat} {bytes : List UInt8} (h : x ∈ readTable k n bytes) : x < 256 ^ k := by
  induction n generalizing bytes with
  | zero => exact absurd h List.not_mem_nil
  | succ n ih =>
    rcases List.mem_cons.1 h with rfl | h
    · exact (toNat_lt _).trans_le (Nat.pow_le_pow_right (by decide) (List.length_take_le _ _))
    · exact ih h

theorem readTable_table_append {ns : List Nat} (hns : ∀ n ∈ ns, n < 256 ^ k) (m : Nat) (rest : List UInt8) :
    readTable k (ns.length + m) (table k ns ++ rest) = ns ++ readTable k m rest := by
  induction ns with
  | nil => simp [table]
  | cons n ns ih =>
    have hn := hns n List.mem_cons_self
    rw [List.length_cons, Nat.add_right_comm, readTable, table, List.flatMap_cons, List.append_assoc,
      List.take_left' (length_ofNat k n), List.drop_left' (length_ofNat k n), toNat_ofNat, Nat.mod_eq_of_lt hn,
      List.cons_append]
    exact congrArg (n :: ·) (ih fun x hx => hns x (List.mem_cons_of_mem _ hx))

theorem readTable_table {ns : List Nat} (hns : ∀ n ∈ ns, n < 256 ^ k) :
    readTable k ns.length (table k ns) = ns := by
  have := readTable_table_append hns 0 []
  rwa [List.append_nil, readTable, List.append_nil, Nat.add_zero] at this

theorem readTable_append {n : Nat} {bytes : List UInt8} (hlen : bytes.length = k * n) (m : Nat)
    (rest : List UInt8) :
    readTable k (n + m) (bytes ++ rest) = readTable k n bytes ++ readTable k m rest := by
  induction n generalizing bytes with
  | zero => simp_all [readTable]
  | succ n ih =>
    rw [Nat.mul_succ] at hlen
    have hdrop : (bytes.drop k).length = k * n := by rw [List.length_drop]; omega
    rw [Nat.add_right_comm, readTable, readTable, List.take_append_of_le_length (by omega),
      List.drop_append_of_le_length (by omega), ih hdrop, List.cons_append]

theorem table_readTable {n : Nat} {bytes : List UInt8} (hlen : bytes.length = k * n) :
    table k (readTable k n bytes) = bytes := by
  induction n generalizing bytes with
  | zero =>
    rw [Nat.mul_zero, List.length_eq_zero_iff] at hlen
    rw [hlen]; rfl
  | succ n ih =>
    rw [Nat.mul_succ] at hlen
    have hdrop : (bytes.drop k).length = k * n := by rw [List.length_drop]; omega
    have htake : (bytes.take k).length = k := by rw [List.length_take]; omega
    have hhead := ofNat_toNat (bytes.take k)
    rw [htake] at hhead
    rw [readTable, table, List.flatMap_cons, hhead]
    exact (congrArg (bytes.take k ++ ·) (ih hdrop)).trans (List.take_append_drop k bytes)

end Bytes

/-! ## Filling a buffer -/

/-- A buffer, with the stores made to it: offset and length of each. -/
structure ByteBuffer where
  bytes : List UInt8
  stores : List (Nat × Nat) := []
deriving DecidableEq

namespace ByteBuffer

def store (buf : ByteBuffer) (offset : Nat) (data : List UInt8) : Option ByteBuffer :=
  if offset + data.length ≤ buf.bytes.length then
    some
      { bytes := buf.bytes.take offset ++ data ++ buf.bytes.drop (offset + data.length)
        stores := buf.stores ++ [(offset, data.length)] }
  else none

def Stored (buf : ByteBuffer) (i : Nat) : Prop := ∃ s ∈ buf.stores, s.1 ≤ i ∧ i < s.1 + s.2

/-- The buffer of length `n` begins with `data`, all of it stored. -/
structure Packed (n : Nat) (data : List UInt8) (buf : ByteBuffer) : Prop where
  length : buf.bytes.length = n
  take : buf.bytes.take data.length = data
  stored : ∀ i < data.length, buf.Stored i

variable {n : Nat} {data : List UInt8} {buf : ByteBuffer}

theorem Packed.store (h : Packed n data buf) (more : List UInt8) (hlen : data.length + more.length ≤ n)
    {offset : Nat} (hoff : offset = data.length) :
    ∃ buf', buf.store offset more = some buf' ∧ Packed n (data ++ more) buf' := by
  subst hoff
  refine ⟨_, if_pos (h.length ▸ hlen), ?_, ?_, ?_⟩
  · have := h.length
    simp only [List.length_append, List.length_take, List.length_drop]
    omega
  · rw [h.take]
    exact List.take_left
  · intro i hi
    rw [List.length_append] at hi
    by_cases hlt : i < data.length
    · obtain ⟨s, hs, hin⟩ := h.stored i hlt
      exact ⟨s, List.mem_append_left _ hs, hin⟩
    · exact ⟨(data.length, more.length), List.mem_append_right _ List.mem_cons_self, by omega, by omega⟩

theorem Packed.bytes_eq (h : Packed data.length data buf) : buf.bytes = data := by
  have := h.take
  rwa [← h.length, List.take_length] at this

end ByteBuffer
