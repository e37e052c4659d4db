import Mathlib.Data.List.Basic
import A17.Lib.Run

/-!
# `CharacterDevice`

`character_device.cpp`, with `asyncSend` as `SerialPort` has it: what is to be sent is cut into chunks,
each in a buffer of the pool, and the front one of the queue is handed to the device, which takes as much
of it as it likes. The device keeps what it took (`written`), and the log has the chunks that were queued
(`enqueued`). Nothing is lost, repeated or reordered on the way (`Inv`): what was written and what is left in the
queue make up what was queued. And what is queued is what there was room for below the high water mark (`Enqueues`).
-/

namespace A17.Utils

def DEFAULT_POOL_BUFFER_SIZE : Nat := 64 * 8

def kHighWaterMark : Nat := 1024

/-- A function that fills a buffer: the bytes it writes and counts, at most `max` of them. -/
structure Copy where
  copy : Nat → List UInt8
  length_le : ∀ max, (copy max).length ≤ max

/-- The first `size` bytes of a buffer, and the position up to which they are sent. -/
structure SendBuffer where
  bytes : List UInt8
  pos : Nat := 0
deriving DecidableEq

namespace SendBuffer

def size (b : SendBuffer) : Nat := b.bytes.length

def isSent (b : SendBuffer) : Bool := b.size ≤ b.pos

def advance (b : SendBuffer) (bytes : Nat) : SendBuffer := { b with pos := b.pos + bytes }

def cbuffer (b : SendBuffer) : List UInt8 := b.bytes.drop b.pos

end SendBuffer

structure CharacterDevice where
  sendBuffers : List SendBuffer := []
  highWaterMark : Nat := kHighWaterMark
  /-- What the outstanding `asyncSend`s were given. -/
  outstanding : List (List UInt8) := []
  written : List UInt8 := []
  enqueued : List (List UInt8) := []
deriving DecidableEq

namespace CharacterDevice

def exceededHighWaterMark (d : CharacterDevice) : Bool := d.highWaterMark ≤ d.sendBuffers.length

def asyncSend (d : CharacterDevice) (buffer : SendBuffer) : CharacterDevice :=
  { d with outstanding := d.outstanding ++ [buffer.cbuffer] }

/-- `send` with a copy function. -/
def sendCopy (d : CharacterDevice) (copy : Copy) : CharacterDevice :=
  if d.exceededHighWaterMark then d
  else
    let buffer : SendBuffer := { bytes := copy.copy DEFAULT_POOL_BUFFER_SIZE }
    let wasEmpty := d.sendBuffers.isEmpty
    let d := { d with sendBuffers := d.sendBuffers ++ [buffer], enqueued := d.enqueued ++ [buffer.bytes] }
    match d.sendBuffers with
    | front :: _ => if wasEmpty then d.asyncSend front else d
    | [] => d

/-- The copy function that `send` makes for the part of `buffer` from `i` on. -/
def copyFrom (buffer : List UInt8) (i : Nat) : Copy where
  copy max :=
    let remain := buffer.length - i
    let current := if max < remain then max else remain
    (buffer.drop i).take current
  length_le max := by
    rw [List.length_take]
    split <;> omega

/-- The passes of `for (size_t i = 0; i < bytes; i += pool_.bufferSize())`. -/
def passes (buffer : List UInt8) : Nat := (buffer.length + DEFAULT_POOL_BUFFER_SIZE - 1) / DEFAULT_POOL_BUFFER_SIZE

def send (d : CharacterDevice) (buffer : List UInt8) : CharacterDevice :=
  if d.exceededHighWaterMark then d
  else
    (List.range (passes buffer)).foldl (fun d k => d.sendCopy (copyFrom buffer (k * DEFAULT_POOL_BUFFER_SIZE))) d

/-- `onSend`; `none` is an error. -/
def onSend (d : CharacterDevice) (result : Option Nat) : CharacterDevice :=
  match result with
  | none => d
  | some bytes =>
    match d.sendBuffers with
    -- `front()` of an empty deque
    | [] => d
    | buffer :: rest =>
      let buffer := buffer.advance bytes
      let d := { d with sendBuffers := if buffer.isSent then rest else buffer :: rest }
      match d.sendBuffers with
      | front :: _ => d.asyncSend front
      | [] => d

end CharacterDevice

inductive DeviceOp where
  | send (buffer : List UInt8)
  | sendCopy (copy : Copy)
  | sendHighWaterMark (hwm : Nat)
  /-- The outstanding write completes; the device took so many bytes, or there was an error. -/
  | complete (result : Option Nat)

namespace CharacterDevice

def complete (d : CharacterDevice) (result : Option Nat) : CharacterDevice :=
  match d.outstanding with
  | [] => d
  | given :: outstanding =>
    match result with
    | none => { d with outstanding }.onSend none
    | some bytes =>
      -- a device does not take more than it is given
      if given.length < bytes then d
      else { d with outstanding, written := d.written ++ given.take bytes }.onSend (some bytes)

def step (d : CharacterDevice) : DeviceOp → CharacterDevice
  | .send buffer => d.send buffer
  | .sendCopy copy => d.sendCopy copy
  | .sendHighWaterMark highWaterMark => { d with highWaterMark }
  | .complete result => d.complete result

/-- What the queue still holds. -/
def queued (d : CharacterDevice) : List UInt8 := d.sendBuffers.flatMap SendBuffer.cbuffer

/-- The front buffer is with the device, and what was written and what is queued is what was enqueued. -/
structure Inv (d : CharacterDevice) : Prop where
  outstanding : d.outstanding = (d.sendBuffers.head?.map SendBuffer.cbuffer).toList
  stream : d.written ++ d.queued = d.enqueued.flatten

variable {d : CharacterDevice}

theorem sendCopy_eq (h : d.exceededHighWaterMark = false) (copy : Copy) : d.sendCopy copy =
    { d with
      sendBuffers := d.sendBuffers ++ [{ bytes := copy.copy DEFAULT_POOL_BUFFER_SIZE }],
      enqueued := d.enqueued ++ [copy.copy DEFAULT_POOL_BUFFER_SIZE],
      outstanding := if d.sendBuffers = [] then d.outstanding ++ [copy.copy DEFAULT_POOL_BUFFER_SIZE]
        else d.outstanding } := by
  rw [sendCopy, h]
  cases hb : d.sendBuffers <;> simp [asyncSend, SendBuffer.cbuffer]

theorem sendCopy_of_exceeded (h : d.exceededHighWaterMark = true) (copy : Copy) : d.sendCopy copy = d := by
  rw [sendCopy, if_pos h]

namespace Inv

theorem sendCopy (h : d.Inv) (copy : Copy) : (d.sendCopy copy).Inv := by
  cases hw : d.exceededHighWaterMark with
  | true =>
    rw [sendCopy_of_exceeded hw]
    exact h
  | false =>
    rw [sendCopy_eq hw]
    constructor
    · have := h.outstanding
      cases hb : d.sendBuffers with
      | nil => simp [hb] at this; simp [this, SendBuffer.cbuffer]
      | cons b bs => simp [hb] at this; simp [this]
    · rw [List.flatten_append, ← h.stream, List.append_assoc]
      simp [queued, SendBuffer.cbuffer]

theorem send (h : d.Inv) (buffer : List UInt8) : (d.send buffer).Inv := by
  rw [CharacterDevice.send]
  split
  · exact h
  · exact Run.invariant (fun d k hd => hd.sendCopy _) h

/-- The device takes some of what it was given, the buffer advances by as much, and an empty one goes. -/
theorem complete (h : d.Inv) (bytes : Nat) : (d.complete (some bytes)).Inv := by
  rw [CharacterDevice.complete]
  split
  · exact h
  next given rest hout =>
  dsimp only
  split
  · exact h
  next hle =>
  have hhead := h.outstanding
  cases hb : d.sendBuffers with
  | nil => simp [hout, hb] at hhead
  | cons b bs =>
    obtain ⟨rfl, rfl⟩ : given = b.cbuffer ∧ rest = [] := by simpa [hout, hb] using hhead
    have hstream : d.written ++ (b.cbuffer ++ bs.flatMap SendBuffer.cbuffer) = d.enqueued.flatten := by
      rw [← h.stream, queued, hb]; rfl
    have hadv : (b.advance bytes).cbuffer = b.cbuffer.drop bytes := by
      rw [SendBuffer.cbuffer, SendBuffer.cbuffer, List.drop_drop]; rfl
    have hcut : (d.written ++ b.cbuffer.take bytes) ++ ((b.advance bytes).cbuffer ++ bs.flatMap SendBuffer.cbuffer) =
        d.enqueued.flatten := by
      rw [hadv, List.append_assoc, ← List.append_assoc (b.cbuffer.take bytes), List.take_append_drop, hstream]
    have hqueue : (d.written ++ b.cbuffer.take bytes) ++
        (if (b.advance bytes).isSent then bs else b.advance bytes :: bs).flatMap SendBuffer.cbuffer =
        d.enqueued.flatten := by
      split
      · next hsent =>
        have hnil : (b.advance bytes).cbuffer = [] := List.drop_eq_nil_of_le (of_decide_eq_true hsent)
        rwa [hnil, List.nil_append] at hcut
      · exact hcut
    simp only [onSend]
    split
    · next hfront => exact ⟨by simp [asyncSend, hfront], hqueue⟩
    · next hnil => exact ⟨by simp [hnil], hqueue⟩

end Inv

/-! ### Cutting a buffer into chunks -/

def chunk (buffer : List UInt8) (k : Nat) : List UInt8 :=
  (copyFrom buffer (k * DEFAULT_POOL_BUFFER_SIZE)).copy DEFAULT_POOL_BUFFER_SIZE

theorem chunk_eq (buffer : List UInt8) (k : Nat) :
    chunk buffer k = (buffer.drop (k * DEFAULT_POOL_BUFFER_SIZE)).take DEFAULT_POOL_BUFFER_SIZE := by
  simp only [chunk, copyFrom]
  split
  · rfl
  · next hle =>
    rw [List.take_of_length_le (by simp), List.take_of_length_le (by simpa using Nat.le_of_not_lt hle)]

theorem flatten_chunks (buffer : List UInt8) (n : Nat) :
    ((List.range n).map (chunk buffer)).flatten = buffer.take (n * DEFAULT_POOL_BUFFER_SIZE) := by
  induction n with
  | zero => simp
  | succ n ih =>
    rw [List.range_succ, List.map_append, List.flatten_append, ih, List.map_singleton, List.flatten_singleton, chunk_eq,
      Nat.succ_mul, List.take_add]

theorem length_le_passes (buffer : List UInt8) : buffer.length ≤ passes buffer * DEFAULT_POOL_BUFFER_SIZE := by
  rw [passes, DEFAULT_POOL_BUFFER_SIZE]
  omega

/-- The loop enqueues chunks until the queue is at the high water mark. -/
theorem foldl_sendCopy (d : CharacterDevice) (buffer : List UInt8) (n : Nat) :
    let d' := (List.range n).foldl (fun d k => d.sendCopy (copyFrom buffer (k * DEFAULT_POOL_BUFFER_SIZE))) d
    let chunks := (List.range (min n (d.highWaterMark - d.sendBuffers.length))).map (chunk buffer)
    d'.highWaterMark = d.highWaterMark ∧ d'.enqueued = d.enqueued ++ chunks ∧
      d'.sendBuffers = d.sendBuffers ++ chunks.map fun bytes => ({ bytes } : SendBuffer) := by
  refine Run.counted (motive := fun n (d' : CharacterDevice) =>
    let chunks := (List.range (min n (d.highWaterMark - d.sendBuffers.length))).map (chunk buffer)
    d'.highWaterMark = d.highWaterMark ∧ d'.enqueued = d.enqueued ++ chunks ∧
      d'.sendBuffers = d.sendBuffers ++ chunks.map fun bytes => ({ bytes } : SendBuffer)) ⟨rfl, by simp, by simp⟩ ?_ n
  rintro n d' ⟨hmark, henqueued, hqueue⟩
  have hlen : d'.sendBuffers.length = d.sendBuffers.length + min n (d.highWaterMark - d.sendBuffers.length) := by
    rw [hqueue]
    simp
  cases hw : d'.exceededHighWaterMark with
  | true =>
    have hle : d'.highWaterMark ≤ d'.sendBuffers.length := of_decide_eq_true hw
    have hmin : min (n + 1) (d.highWaterMark - d.sendBuffers.length) =
        min n (d.highWaterMark - d.sendBuffers.length) := by omega
    rw [sendCopy_of_exceeded hw, hmin]
    exact ⟨hmark, henqueued, hqueue⟩
  | false =>
    have hlt : ¬ d'.highWaterMark ≤ d'.sendBuffers.length := of_decide_eq_false hw
    have hmin : min n (d.highWaterMark - d.sendBuffers.length) = n := by omega
    have hmin' : min (n + 1) (d.highWaterMark - d.sendBuffers.length) = n + 1 := by omega
    rw [hmin] at henqueued hqueue
    rw [sendCopy_eq hw, hmin', List.range_succ, List.map_append]
    refine ⟨hmark, ?_, ?_⟩
    · rw [henqueued, List.append_assoc]
      rfl
    · rw [List.map_append, hqueue, List.append_assoc]
      rfl

theorem send_eq (d : CharacterDevice) (buffer : List UInt8) :
    let chunks := (List.range (min (passes buffer) (d.highWaterMark - d.sendBuffers.length))).map (chunk buffer)
    (d.send buffer).enqueued = d.enqueued ++ chunks ∧
      (d.send buffer).sendBuffers = d.sendBuffers ++ chunks.map fun bytes => ({ bytes } : SendBuffer) := by
  rw [send]
  dsimp only
  split
  · next hw =>
    have hle : d.highWaterMark ≤ d.sendBuffers.length := of_decide_eq_true hw
    rw [Nat.sub_eq_zero_of_le hle, Nat.min_zero]
    exact ⟨(List.append_nil _).symm, (List.append_nil _).symm⟩
  · exact (foldl_sendCopy d buffer _).2

/-! ### Runs -/

/-- What the device took is the beginning of what was enqueued, at most one write is outstanding, and one is
as long as there is something to write. -/
structure Intact (d : CharacterDevice) : Prop where
  taken : d.written <+: d.enqueued.flatten
  outstanding : d.outstanding.length ≤ 1
  sending : d.outstanding ≠ [] ↔ d.sendBuffers ≠ []
  drained : d.sendBuffers = [] → d.written = d.enqueued.flatten

theorem Inv.intact (h : d.Inv) : d.Intact where
  taken := ⟨_, h.stream⟩
  outstanding := by
    rw [h.outstanding]
    cases d.sendBuffers <;> simp
  sending := by
    rw [h.outstanding]
    cases d.sendBuffers <;> simp
  drained hnil := by
    rw [← h.stream, queued, hnil]; simp

/-- What a step enqueues: one chunk for a copy function that is not called at the high water mark, and of a buffer as
many chunks as there is room for below the mark, with all of its bytes if there is room for all. -/
def Enqueues (d d' : CharacterDevice) : DeviceOp → Prop
  | .send buffer => ∃ chunks, d'.enqueued = d.enqueued ++ chunks ∧
      chunks.length = min (passes buffer) (d.highWaterMark - d.sendBuffers.length) ∧ chunks.flatten <+: buffer ∧
      (d.sendBuffers.length + passes buffer ≤ d.highWaterMark → chunks.flatten = buffer)
  | .sendCopy copy => d'.enqueued = d.enqueued ++
      if d.sendBuffers.length < d.highWaterMark then [copy.copy DEFAULT_POOL_BUFFER_SIZE] else []
  | .sendHighWaterMark _ | .complete _ => d'.enqueued = d.enqueued

theorem enqueues_send (d : CharacterDevice) (buffer : List UInt8) : d.Enqueues (d.send buffer) (.send buffer) := by
  refine ⟨_, (d.send_eq buffer).1, by simp, ?_, fun hroom => ?_⟩
  · rw [flatten_chunks]
    exact List.take_prefix ..
  · rw [flatten_chunks, Nat.min_eq_left (by omega), List.take_of_length_le (length_le_passes buffer)]

theorem enqueues_sendCopy (d : CharacterDevice) (copy : Copy) : d.Enqueues (d.sendCopy copy) (.sendCopy copy) := by
  show (d.sendCopy copy).enqueued = d.enqueued ++
    if d.sendBuffers.length < d.highWaterMark then [copy.copy DEFAULT_POOL_BUFFER_SIZE] else []
  cases hw : d.exceededHighWaterMark with
  | true =>
    rw [sendCopy_of_exceeded hw, if_neg (Nat.not_lt.2 (of_decide_eq_true hw)), List.append_nil]
  | false =>
    rw [sendCopy_eq hw, if_pos (Nat.lt_of_not_le (of_decide_eq_false hw))]

theorem enqueued_onSend (d : CharacterDevice) (result : Option Nat) : (d.onSend result).enqueued = d.enqueued := by
  unfold onSend
  split
  · rfl
  split
  · rfl
  · dsimp only
    split <;> rfl

theorem enqueued_complete (d : CharacterDevice) (result : Option Nat) :
    (d.complete result).enqueued = d.enqueued := by
  unfold complete
  split
  · rfl
  split
  · rfl
  · split
    · rfl
    · exact enqueued_onSend _ _

theorem enqueues_step (d : CharacterDevice) (op : DeviceOp) : d.Enqueues (d.step op) op := by
  cases op with
  | send buffer => exact d.enqueues_send buffer
  | sendCopy copy => exact d.enqueues_sendCopy copy
  | sendHighWaterMark highWaterMark => rfl
  | complete result => exact d.enqueued_complete result

end CharacterDevice

/-- An error is not among the write completions. -/
def DeviceOp.Succeeds : DeviceOp → Prop
  | .complete result => result.isSome = true
  | _ => True

namespace CharacterDevice
variable {d : CharacterDevice}

theorem Inv.step (h : d.Inv) (op : DeviceOp) (hop : op.Succeeds) : (d.step op).Inv := by
  cases op with
  | send buffer => exact h.send buffer
  | sendCopy copy => exact h.sendCopy copy
  | sendHighWaterMark hwm => exact ⟨h.outstanding, h.stream⟩
  | complete result =>
    obtain ⟨bytes, rfl⟩ := Option.isSome_iff_exists.1 hop
    exact h.complete bytes

/-- In a run without write errors every state is `Intact`, and what each step enqueues is what there is room for below
the high water mark. -/
theorem stream_intact {ops : List DeviceOp} (h : ∀ op ∈ ops, op.Succeeds) :
    Run.States step Intact {} ops ∧ Run.Steps step (fun d op => d.Enqueues (d.step op) op) {} ops := by
  have hsteps : Run.Steps step (fun _ op => op.Succeeds) {} ops :=
    fun pre op hpre => h op (hpre.subset (by simp))
  constructor
  · intro pre hpre
    exact (hsteps.states (I := Inv) (fun d op hd hop => hd.step op hop) ⟨rfl, rfl⟩ pre hpre).intact
  · exact fun pre op _ => enqueues_step _ op

/-- Two sends; the device takes the first in two writes, and the mark is met by the third. -/
theorem stream_intact_partial_write :
    let ops : List DeviceOp := [.send [1, 2, 3], .send [4], .complete (some 2), .complete (some 1),
      .sendHighWaterMark 1, .send [5], .complete (some 1)]
    (ops.foldl step {}).written = [1, 2, 3, 4] ∧ Run.States step Intact {} ops ∧
      Run.Steps step (fun d op => d.Enqueues (d.step op) op) {} ops :=
  ⟨by decide, stream_intact (by simp [DeviceOp.Succeeds])⟩

end CharacterDevice
end A17.Utils
