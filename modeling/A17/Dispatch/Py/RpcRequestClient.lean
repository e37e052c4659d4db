import Mathlib.Data.Rat.Defs
import A17.Dispatch.Socket
import A17.Dispatch.Py.RequestClient

/-!
# `RpcRequestClient` of `dispatch.py`

One request, and a future for its reply. The owner of a `RequestClient` whose `on_disconnect` lets go of the
client (`_cleanup`), as do a reply and a timeout, and then resolves the future. A reply that cannot be decoded
is only logged, after the cleanup: then nothing is left that could resolve the future (`Undecodable`).

`α` is the reply type and `fromBytes` its `from_bytes`, which is the library's. `resolutions` are the calls of
`set_result` and `set_exception`.
-/

namespace A17.Dispatch.Py

inductive Resolution (α : Type) where
  | result (reply : α)
  | connectionError (message : Str)
  | timeoutError (message : Str)
deriving DecidableEq

structure Rpc (α : Type) where
  /-- `_request_client` is not `None`. -/
  requestClient : Bool := true
  timeoutScheduled : Bool := false
  /-- `__schedule_timeout` is on the io loop. -/
  timeoutQueued : Bool := false
  /-- The timeout of `_timeout_handle` is under way. -/
  timeoutArmed : Bool := false
  resolutions : List (Resolution α) := []

namespace Rpc
variable {α : Type}

def done (r : Rpc α) : Bool := !r.resolutions.isEmpty

def cancelTimeout (r : Rpc α) : Rpc α := { r with timeoutScheduled := false, timeoutArmed := false }

def resolve (r : Rpc α) (resolution : Resolution α) : Rpc α := { r with resolutions := r.resolutions ++ [resolution] }

/-- `_cleanup`, up to `close` of the request client. -/
def release (r : Rpc α) : Rpc α := { r with requestClient := false }.cancelTimeout

/-- `_on_disconnect`. Its `_cleanup` closes a stream that is closed, which comes back here without a request
client. -/
def onDisconnect (r : Rpc α) : Rpc α :=
  if !r.requestClient then r
  else
    let r := r.release
    if !r.done then r.resolve (.connectionError "Connection error".toList) else r

end Rpc

/-- An `RpcRequestClient` and its `RequestClient`. -/
abbrev RpcRequestClient (α : Type) := RequestClient (Rpc α)

inductive RpcOp where
  | scheduleTimeout
  | updated (topicMap : TopicDict)
  | runCallback
  /-- A call of `_on_connect` that is due; `builds` is whether the request can be put into a message. -/
  | connected (builds : Bool)
  | reply (replyMessage : List Frame)
  | timeout

namespace RpcRequestClient
variable {α : Type}

/-- The state after `execute`. -/
def execute (timeout : ℚ) : RpcRequestClient α :=
  { owner := { timeoutScheduled := timeout ≠ 0, timeoutQueued := timeout ≠ 0 } }

def scheduleTimeout (c : RpcRequestClient α) : RpcRequestClient α :=
  if !c.owner.timeoutQueued then c
  else
    let owner := { c.owner with timeoutQueued := false }
    if !owner.timeoutScheduled then { c with owner } else { c with owner := { owner with timeoutArmed := true } }

/-- `_cleanup`, and whether it returns: `close` of `None` raises. -/
def cleanup (c : RpcRequestClient α) : Bool × RpcRequestClient α :=
  let released : RpcRequestClient α := { c with owner := c.owner.release }
  if c.owner.requestClient then (true, released.closeStream Rpc.onDisconnect) else (false, released)

def onConnect (c : RpcRequestClient α) (builds : Bool) : RpcRequestClient α :=
  if c.scheduled = 0 then c
  else
    let c := { c with scheduled := c.scheduled - 1 }
    if !c.owner.requestClient then c
    else if !builds then c
    -- `request` asserts that there is a stream
    else { c with stream := c.stream.map fun stream => { stream with receiving := true } }

section
variable (fromBytes : Frame → Except Str α)

/-- `self._reply_type.from_bytes(reply_message[1])`. -/
def decode (replyMessage : List Frame) : Except Str α :=
  match replyMessage[1]? with
  | none => .error "list index out of range".toList
  | some frame => fromBytes frame

def onReply (c : RpcRequestClient α) (replyMessage : List Frame) : RpcRequestClient α :=
  match c.cleanup with
  | (false, c) => c
  | (true, c) =>
    match decode fromBytes replyMessage with
    | .ok reply => { c with owner := c.owner.resolve (.result reply) }
    | .error _ => c

def onTimeout (c : RpcRequestClient α) : RpcRequestClient α :=
  if !c.owner.requestClient then c
  else
    match c.cleanup with
    | (false, c) => c
    | (true, c) =>
      if !c.owner.done then { c with owner := c.owner.resolve (.timeoutError "Timed out".toList) } else c

def receiving (c : RpcRequestClient α) : Bool := c.stream.any Stream.receiving

def step (c : RpcRequestClient α) : RpcOp → RpcRequestClient α
  | .scheduleTimeout => c.scheduleTimeout
  | .updated topicMap => c.topicMapUpdated Rpc.onDisconnect topicMap
  | .runCallback => c.runCallback Rpc.onDisconnect
  | .connected builds => c.onConnect builds
  | .reply replyMessage => if c.receiving then c.onReply fromBytes replyMessage else c
  | .timeout =>
    if c.owner.timeoutArmed then onTimeout { c with owner := { c.owner with timeoutArmed := false } } else c

end
end RpcRequestClient

/-! ## The future and the cleanup -/

/-- The future is resolved when the request client is gone, and then once; until then only a request client is
there for a timeout to find. -/
structure Rpc.Inv {α : Type} (r : Rpc α) : Prop where
  pending : r.requestClient = true → r.resolutions = []
  resolved : r.requestClient = false → r.resolutions.length = 1
  scheduled : r.timeoutScheduled = true → r.requestClient = true
  armed : r.timeoutArmed = true → r.requestClient = true

namespace RpcRequestClient
variable {α : Type} {fromBytes : Frame → Except Str α} {c : RpcRequestClient α}

/-- The future is resolved at most once, and after the cleanup it is. -/
structure Resolved (c : RpcRequestClient α) : Prop where
  once : c.owner.resolutions.length ≤ 1
  done : c.owner.requestClient = false → c.owner.done = true

/-- A reply arrives that has no second frame, or one that is not a reply. -/
def Undecodable (fromBytes : Frame → Except Str α) (c : RpcRequestClient α) : RpcOp → Prop
  | .reply replyMessage => c.receiving = true ∧ ∀ reply, decode fromBytes replyMessage ≠ .ok reply
  | _ => False

structure Inv (c : RpcRequestClient α) : Prop where
  owner : c.owner.Inv
  receiving : c.receiving = true → c.owner.requestClient = true

theorem Inv.toResolved (h : c.Inv) : c.Resolved := by
  cases hc : c.owner.requestClient with
  | true =>
    refine ⟨by simp [h.owner.pending hc], fun h' => ?_⟩
    rw [hc] at h'
    cases h'
  | false =>
    have hone := h.owner.resolved hc
    refine ⟨hone.le, fun _ => ?_⟩
    cases hr : c.owner.resolutions with
    | nil => simp [hr] at hone
    | cons => simp [Rpc.done, hr]

end RpcRequestClient

namespace Rpc
variable {α : Type} {r : Rpc α}

theorem onDisconnect_of_released (h : r.requestClient = false) : r.onDisconnect = r := by
  simp [onDisconnect, h]

theorem onDisconnect_eq (h : r.Inv) (hr : r.requestClient = true) :
    r.onDisconnect = r.release.resolve (.connectionError "Connection error".toList) := by
  simp [onDisconnect, hr, done, release, cancelTimeout, h.pending hr]

/-- What is resolved after the cleanup is resolved once. -/
theorem Inv.release_resolve (h : r.Inv) (hr : r.requestClient = true) (resolution : Resolution α) :
    (r.release.resolve resolution).Inv := by
  have hnil := h.pending hr
  constructor <;> simp [release, resolve, cancelTimeout, hnil]

theorem Inv.onDisconnect (h : r.Inv) : r.onDisconnect.Inv := by
  cases hr : r.requestClient with
  | true =>
    rw [onDisconnect_eq h hr]
    exact h.release_resolve hr _
  | false =>
    rw [onDisconnect_of_released hr]
    exact h

end Rpc

namespace RpcRequestClient
variable {α : Type} {fromBytes : Frame → Except Str α} {c : RpcRequestClient α}

theorem Inv.of_idle (h : c.owner.Inv) (hs : c.receiving = false) : c.Inv :=
  ⟨h, fun h' => by rw [hs] at h'; cases h'⟩

theorem cleanup_eq (h : c.owner.requestClient = true) :
    c.cleanup = (true, { c with stream := none, owner := c.owner.release }) := by
  rw [cleanup, if_pos h, RequestClient.closeStream, Rpc.onDisconnect_of_released rfl]

namespace Inv

theorem execute (timeout : ℚ) : Inv (execute timeout : RpcRequestClient α) := by
  refine .of_idle ⟨?_, ?_, ?_, ?_⟩ rfl <;> simp [RpcRequestClient.execute]

theorem disconnect (h : c.Inv) : Inv (c.disconnect Rpc.onDisconnect) := by
  rw [RequestClient.disconnect]
  split
  · exact h
  · exact .of_idle h.owner.onDisconnect rfl

theorem connect (h : c.Inv) (topic : Topic) : Inv (c.connect Rpc.onDisconnect topic) :=
  .of_idle h.disconnect.owner rfl

theorem topicMapUpdated (h : c.Inv) (topicMap : TopicDict) :
    Inv (c.topicMapUpdated Rpc.onDisconnect topicMap) := by
  rw [RequestClient.topicMapUpdated]
  split
  · exact ⟨h.owner, h.receiving⟩
  next newestTopic _ =>
  split
  · exact h.connect newestTopic
  · split
    · exact h.connect newestTopic
    · exact h

theorem runCallback (h : c.Inv) : Inv (c.runCallback Rpc.onDisconnect) := by
  rw [RequestClient.runCallback]
  split
  · exact h
  · exact disconnect ⟨h.owner, h.receiving⟩

theorem scheduleTimeout (h : c.Inv) : c.scheduleTimeout.Inv := by
  have ho := h.owner
  rw [RpcRequestClient.scheduleTimeout]
  split
  · exact h
  · dsimp only
    split
    · exact ⟨⟨ho.pending, ho.resolved, ho.scheduled, ho.armed⟩, h.receiving⟩
    · next hs =>
      have hr : c.owner.requestClient = true := ho.scheduled (by simpa using hs)
      exact ⟨⟨ho.pending, ho.resolved, ho.scheduled, fun _ => hr⟩, h.receiving⟩

theorem onConnect (h : c.Inv) (builds : Bool) : (c.onConnect builds).Inv := by
  rw [RpcRequestClient.onConnect]
  split
  · exact h
  · dsimp only
    split
    · exact ⟨h.owner, h.receiving⟩
    next hr =>
    split
    · exact ⟨h.owner, h.receiving⟩
    · exact ⟨h.owner, fun _ => by simpa using hr⟩

theorem onTimeout (h : c.Inv) : c.onTimeout.Inv := by
  rw [RpcRequestClient.onTimeout]
  split
  · exact h
  · next hr =>
    have hr : c.owner.requestClient = true := by simpa using hr
    have hdone : c.owner.release.done = false := by simp [Rpc.done, Rpc.release, Rpc.cancelTimeout, h.owner.pending hr]
    rw [cleanup_eq hr]
    dsimp only
    rw [hdone]
    exact .of_idle (h.owner.release_resolve hr _) rfl

theorem timeout (h : c.Inv) : (c.step fromBytes .timeout).Inv := by
  rw [step]
  split
  · have ho := h.owner
    exact onTimeout ⟨⟨ho.pending, ho.resolved, ho.scheduled, by simp⟩, h.receiving⟩
  · exact h

theorem reply (h : c.Inv) {replyMessage : List Frame} (hd : ¬ Undecodable fromBytes c (.reply replyMessage)) :
    (c.step fromBytes (.reply replyMessage)).Inv := by
  rw [RpcRequestClient.step]
  split
  · next hrec =>
    have hr := h.receiving hrec
    rw [onReply, cleanup_eq hr]
    dsimp only
    split
    · exact .of_idle (h.owner.release_resolve hr _) rfl
    · next heq => exact absurd ⟨hrec, by simp [heq]⟩ hd
  · exact h

theorem step (h : c.Inv) {op : RpcOp} (hd : ¬ Undecodable fromBytes c op) : (c.step fromBytes op).Inv := by
  cases op with
  | scheduleTimeout => exact h.scheduleTimeout
  | updated topicMap => exact h.topicMapUpdated topicMap
  | runCallback => exact h.runCallback
  | connected builds => exact h.onConnect builds
  | reply replyMessage => exact h.reply hd
  | timeout => exact h.timeout

/-- The cleanup comes first, so a reply that cannot be decoded is the end. -/
theorem not_resolved (h : c.Inv) {op : RpcOp} (hu : Undecodable fromBytes c op) :
    ¬ (c.step fromBytes op).Resolved := by
  cases op with
  | reply replyMessage =>
    obtain ⟨hrec, hdecode⟩ := hu
    have hr := h.receiving hrec
    have hnil : c.owner.release.resolutions = [] := h.owner.pending hr
    rw [RpcRequestClient.step, if_pos hrec, onReply, cleanup_eq hr]
    dsimp only
    split
    · next reply heq => exact absurd heq (hdecode reply)
    · intro hres
      have := hres.done rfl
      simp [Rpc.done, hnil] at this
  | _ => exact absurd hu id

end Inv

/-- In every order of events the future is resolved as it should be, just in case every reply that arrives can
be decoded. -/
theorem resolved_iff (fromBytes : Frame → Except Str α) (timeout : ℚ) (ops : List RpcOp) :
    Run.States (step fromBytes) Resolved (execute timeout) ops ↔
      Run.Steps (step fromBytes) (fun c op => ¬ Undecodable fromBytes c op) (execute timeout) ops := by
  refine Run.states_iff_steps (fun _ => Inv.toResolved) (fun _ _ h hd => h.step hd) ?_ (.execute timeout)
  intro c op h hu
  exact h.not_resolved (not_not.1 hu)

/-- The server answers with a blank message, as a `ReplyServer` does after an exception. -/
theorem blank_reply : ¬ ∀ ops : List RpcOp,
    Run.States (step fun _ => .ok ()) Resolved (execute 0) ops := by
  intro h
  let topic : Topic := ⟨"t".toList, .rep, "tcp://10.0.0.1:5000".toList, none, none, "a".toList, 1⟩
  have hlast := (h [.updated ⟨[(topic.guid, topic)], by decide⟩, .connected true, .reply [[]]]).last.done (by decide)
  exact absurd hlast (by decide)

end RpcRequestClient
end A17.Dispatch.Py
