import A17.Utils.CharacterDevice

/-!
# The send queue of a `CharacterDevice`

Two things go wrong with the queue. A write that fails is not followed by another one, and `send` starts one only
if the queue was empty: what is queued then stays there (`sending_iff`). And the high water mark is asked again
before each chunk of a buffer, while the chunks before it count: a buffer that meets it half way is cut off there
(`send_whole_iff`).
-/

namespace A17.Utils
namespace CharacterDevice

/-! ### Failed writes -/

/-- The outstanding write completes, with whatever byte count. -/
def finish (d : CharacterDevice) (result : Option Nat) : CharacterDevice :=
  match d.outstanding with
  | [] => d
  | _ :: outstanding => { d with outstanding }.onSend result

def drive (d : CharacterDevice) : DeviceOp → CharacterDevice
  | .send buffer => d.send buffer
  | .sendCopy copy => d.sendCopy copy
  | .sendHighWaterMark highWaterMark => { d with highWaterMark }
  | .complete result => d.finish result

def Sending (d : CharacterDevice) : Prop := d.sendBuffers ≠ [] → d.outstanding ≠ []

/-- An outstanding write completes with an error. -/
def Fails (d : CharacterDevice) (op : DeviceOp) : Prop := op = .complete none ∧ d.outstanding ≠ []

/-- As many writes are outstanding as there are buffers in front. -/
def OneWrite (d : CharacterDevice) : Prop := d.outstanding.length = if d.sendBuffers = [] then 0 else 1

variable {d : CharacterDevice}

namespace OneWrite

theorem sending (h : d.OneWrite) : d.Sending := by
  intro hne hnil
  rw [OneWrite, if_neg hne, hnil] at h
  cases h

theorem sendCopy (h : d.OneWrite) (copy : Copy) : (d.sendCopy copy).OneWrite := by
  cases hw : d.exceededHighWaterMark with
  | true =>
    rw [sendCopy_of_exceeded hw]
    exact h
  | false =>
    rw [OneWrite] at h
    rw [sendCopy_eq hw, OneWrite]
    dsimp only
    rw [if_neg (List.append_ne_nil_of_right_ne_nil d.sendBuffers (List.cons_ne_nil _ _))]
    split
    · next hnil => rw [List.length_append, h, if_pos hnil, List.length_singleton]
    · next hne => rw [h, if_neg hne]

theorem send (h : d.OneWrite) (buffer : List UInt8) : (d.send buffer).OneWrite := by
  rw [CharacterDevice.send]
  split
  · exact h
  · exact Run.invariant (fun d k hd => OneWrite.sendCopy hd _) h

theorem onSend (hnone : d.outstanding = []) (hne : d.sendBuffers ≠ []) (bytes : Nat) :
    (d.onSend (some bytes)).OneWrite := by
  obtain ⟨buffer, rest, hb⟩ := List.exists_cons_of_ne_nil hne
  rw [CharacterDevice.onSend, hb]
  dsimp only
  split
  · next hfront => simp [OneWrite, asyncSend, hfront, hnone]
  · next hnil => simp [OneWrite, hnil, hnone]

/-- The write that completes is the only one, and its buffer is in front. -/
theorem last (h : d.OneWrite) {given : List UInt8} {outstanding : List (List UInt8)}
    (hout : d.outstanding = given :: outstanding) : d.sendBuffers ≠ [] ∧ outstanding = [] := by
  rw [OneWrite, hout, List.length_cons] at h
  split at h
  · omega
  · next hne => exact ⟨hne, List.length_eq_zero_iff.1 (by omega)⟩

theorem drive (h : d.OneWrite) (op : DeviceOp) (hop : ¬ d.Fails op) : (d.drive op).OneWrite := by
  cases op with
  | send buffer => exact h.send buffer
  | sendCopy copy => exact h.sendCopy copy
  | sendHighWaterMark highWaterMark => exact h
  | complete result =>
    rw [CharacterDevice.drive, finish]
    split
    · exact h
    next given outstanding hout =>
    obtain ⟨hne, rfl⟩ := h.last hout
    cases result with
    | none => exact absurd ⟨rfl, by rw [hout]; simp⟩ hop
    | some bytes => exact onSend (d := { d with outstanding := [] }) rfl hne bytes

/-- After an error nothing is outstanding, and the buffer is still there. -/
theorem not_sending (h : d.OneWrite) {op : DeviceOp} (hop : d.Fails op) : ¬ (d.drive op).Sending := by
  obtain ⟨rfl, hne⟩ := hop
  obtain ⟨given, outstanding, hout⟩ := List.exists_cons_of_ne_nil hne
  obtain ⟨hqueue, hlast⟩ := h.last hout
  rw [CharacterDevice.drive, finish, hout]
  exact fun hs => hs hqueue hlast

end OneWrite

/-- In a run a write is outstanding whenever something is queued exactly if no write fails. -/
theorem sending_iff (ops : List DeviceOp) :
    Run.States drive Sending {} ops ↔ Run.Steps drive (fun d op => ¬ d.Fails op) {} ops :=
  Run.states_iff_steps (I := OneWrite) (fun _ h => h.sending) (fun _ op h hop => h.drive op hop)
    (fun _ _ h hop => h.not_sending (not_not.1 hop)) rfl

/-- One write fails, and the next buffer is queued behind the one that failed. -/
theorem failed_write_stops_sending :
    ¬ Run.States drive Sending {} [.send [1], .complete none, .send [2]] := by
  intro h
  exact h.last (by decide) (by decide)

/-! ### Buffers cut off -/

theorem flatMap_chunks (buffer : List UInt8) (n : Nat) :
    (((List.range n).map (chunk buffer)).map fun bytes => ({ bytes } : SendBuffer)).flatMap SendBuffer.cbuffer =
      buffer.take (n * DEFAULT_POOL_BUFFER_SIZE) := by
  rw [← flatten_chunks, List.flatMap_map, List.flatMap]
  exact congrArg List.flatten (List.map_id' _)

/-- What `send` puts into the queue is the whole of its buffer, or nothing. -/
def SendsWhole (d : CharacterDevice) (buffer : List UInt8) : Prop :=
  (∃ chunks, (d.send buffer).sendBuffers = d.sendBuffers ++ chunks ∧ chunks.flatMap SendBuffer.cbuffer = buffer) ∨
    (d.send buffer).sendBuffers = d.sendBuffers

/-- A buffer is queued whole or not at all exactly if the queue is at the high water mark already, or has room for
all of its chunks. -/
theorem send_whole_iff (d : CharacterDevice) (buffer : List UInt8) :
    d.SendsWhole buffer ↔ d.highWaterMark ≤ d.sendBuffers.length ∨
      d.sendBuffers.length + (buffer.length + DEFAULT_POOL_BUFFER_SIZE - 1) / DEFAULT_POOL_BUFFER_SIZE ≤
        d.highWaterMark := by
  have hpasses : passes buffer = (buffer.length + DEFAULT_POOL_BUFFER_SIZE - 1) / DEFAULT_POOL_BUFFER_SIZE := rfl
  rw [SendsWhole, (d.send_eq buffer).2, ← hpasses]
  constructor
  · rintro (⟨chunks, hqueue, hflat⟩ | hqueue)
    · rw [← List.append_cancel_left hqueue, flatMap_chunks] at hflat
      have hlen := congrArg List.length hflat
      rw [List.length_take] at hlen
      -- all bytes are in the chunks queued, so there are enough chunks
      rw [hpasses, DEFAULT_POOL_BUFFER_SIZE] at *
      omega
    · have hnil := List.append_right_eq_self.1 hqueue
      rw [List.map_eq_nil_iff, List.map_eq_nil_iff, List.range_eq_nil] at hnil
      omega
  · rintro (hfull | hroom)
    · right
      rw [Nat.sub_eq_zero_of_le hfull]
      simp
    · left
      refine ⟨_, rfl, ?_⟩
      rw [Nat.min_eq_left (by omega), flatMap_chunks, List.take_of_length_le (length_le_passes _)]

/-- A mark of one, and a buffer of 513 bytes: 512 of them are queued. -/
theorem send_cut_off : ¬ SendsWhole { highWaterMark := 1 } (List.replicate 513 0) := by
  have hbytes : ((send { highWaterMark := 1 } (List.replicate 513 0)).sendBuffers.flatMap
      SendBuffer.cbuffer).length = 512 := by decide +kernel
  rintro (⟨chunks, hqueue, hflat⟩ | hqueue)
  · rw [hqueue, List.nil_append, hflat, List.length_replicate] at hbytes
    omega
  · rw [hqueue] at hbytes
    cases hbytes

end CharacterDevice
end A17.Utils
