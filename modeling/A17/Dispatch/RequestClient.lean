import Mathlib.Data.Rat.Floor
import A17.Lib.DeadlineTimer
import A17.Lib.Run
import A17.Dispatch.Socket
import A17.Dispatch.TopicStore

/-!
# `RequestClient`

`request_client.cpp`: one request at a time, over a socket that is thrown away and made anew when the
newest provider of the topic changes and when a request times out. An accepted request has a serial
number; the receive it starts and the wait of its timeout remember it, the code does not. The client
keeps a log of the callbacks it invokes.

A destroyed socket drops the receive that was outstanding on it. A request made from inside a callback
is a request right after it: both leave alone what the callback returns to.
-/

open Std

namespace A17.Dispatch

/-- An accepted request. A handler is a number, `none` an empty `std::function`. -/
structure Request where
  serial : Nat
  replyHandler : Option Nat
  errorHandler : Option Nat
  timeout : ℚ
deriving DecidableEq

structure RequestErrorHandler where
  request : Request
  handler : Nat
deriving DecidableEq

/-- A callback invoked, on behalf of which request; an empty one throws. -/
inductive Callback where
  | reply (request : Request) (handler : Option Nat) (message : MessageVector)
  | error (request : Request) (handler : Option Nat) (ec : ErrorCode)
deriving DecidableEq

namespace Callback

def request : Callback → Request
  | reply request _ _ => request
  | error request _ _ => request

def handler : Callback → Option Nat
  | reply _ handler _ => handler
  | error _ handler _ => handler

end Callback

/-- A socket and the address it was connected to. -/
structure Connection where
  address : Str
  socket : Socket Request RequestErrorHandler := {}
deriving DecidableEq

structure RequestClient where
  timeoutTimer : DeadlineTimer Request := {}
  socket : Option Connection := none
  replyHandler : Option Nat := none
  waitingForReceive : Bool := false
  connectedTopic : DirectoryTopic := ⟨[], 0, .pair, [], ∅, ∅, [], []⟩
  accepted : List Request := []
  callbacks : List Callback := []
  sent : List Part := []

/-- `none` is the exception on an empty map. -/
def newestTopic (guidTopicMap : GuidTopicMap) : Option DirectoryTopic :=
  match guidTopicMap.toList with
  | [] => none
  | first :: rest => some ((first :: rest).foldl (fun newest guidTopic =>
      if newest.timestamp < guidTopic.2.timestamp then guidTopic.2 else newest) first.2)

namespace RequestClient

def isConnected (c : RequestClient) : Bool := c.socket.isSome

def disconnect (c : RequestClient) : RequestClient :=
  if !c.isConnected then c else { c with socket := none }

def connect (c : RequestClient) (topic : DirectoryTopic) : RequestClient :=
  if c.isConnected && topic = c.connectedTopic then c
  else
    let c := if c.isConnected then c.disconnect else c
    { c with connectedTopic := topic, socket := some { address := topic.address } }

def reconnect (c : RequestClient) : RequestClient :=
  if !c.isConnected then c else c.disconnect.connect c.connectedTopic

def onDirectoryTopicsChanged (c : RequestClient) (guidTopicMap : GuidTopicMap) : RequestClient :=
  if guidTopicMap.isEmpty then c.disconnect
  else
    match newestTopic guidTopicMap with
    | none => c
    | some topic => c.connect topic

def cleanupRequest (c : RequestClient) : RequestClient :=
  { c with timeoutTimer := c.timeoutTimer.cancel, waitingForReceive := false }

/-- `request` and its error code; `none` is success. -/
def request (c : RequestClient) (message : MessageVector) (replyHandler errorHandler : Option Nat) (timeout : ℚ)
    (zmqSend : Nat → Option ErrorCode) : Option ErrorCode × RequestClient :=
  let c := { c with replyHandler }
  if c.waitingForReceive then (some .connectionAlreadyInProgress, c)
  else
    match c.socket with
    | none => (some .notConnected, c)
    | some connection =>
      let (parts, ec) := Socket.send message zmqSend
      let c := { c with sent := c.sent ++ parts }
      match ec with
      | some ec => (some ec, c)
      | none =>
        let r : Request := { serial := c.accepted.length, replyHandler, errorHandler, timeout }
        let socket := connection.socket.receive r (errorHandler.map fun handler => { request := r, handler })
        let c := { c with
          socket := some { connection with socket }, waitingForReceive := true, accepted := c.accepted ++ [r] }
        if 0 < timeout then
          (none, { c with
            timeoutTimer := (c.timeoutTimer.expiresFromNow (1000 * timeout.floor.toNat)).asyncWait r })
        else (none, c)

/-- `sendReplyToHandler`, called for the receive that `r` started. -/
def sendReplyToHandler (c : RequestClient) (r : Request) (message : MessageVector) : RequestClient :=
  let c := c.cleanupRequest
  { c with callbacks := c.callbacks ++ [.reply r c.replyHandler message] }

/-- An outstanding receive of the socket completes. `returns` is whether a reply handler that is called
returns. -/
def onReceive (c : RequestClient) (result : Except ErrorCode Part) (returns : Bool) : RequestClient :=
  match c.socket with
  | none => c
  | some connection =>
    if connection.socket.receives = 0 then c
    else
      let (socket, upcall) := connection.socket.onReceive result
      let c := { c with socket := some { connection with socket } }
      match upcall with
      | .none => c
      | .error handler ec => { c with callbacks := c.callbacks ++ [.error handler.request (some handler.handler) ec] }
      | .message none _ => c
      | .message (some r) message =>
        let socket := socket.handled (returns && c.replyHandler.isSome)
        { c.sendReplyToHandler r message with socket := some { connection with socket } }

/-- The handler of the timeout's wait. -/
def onTimeout (c : RequestClient) (r : Request) (success : Bool) : RequestClient :=
  if !success then c
  else
    let c := c.cleanupRequest.reconnect
    { c with callbacks := c.callbacks ++ [.error r r.errorHandler .timedOut] }

def complete (c : RequestClient) (i : Nat) : RequestClient :=
  match c.timeoutTimer.take i with
  | none => c
  | some ((r, success), timeoutTimer) => { c with timeoutTimer }.onTimeout r success

end RequestClient

inductive ClientOp where
  | request (message : MessageVector) (replyHandler errorHandler : Option Nat) (timeout : ℚ)
    (zmqSend : Nat → Option ErrorCode)
  | receive (result : Except ErrorCode Part) (returns : Bool)
  | topicsChanged (guidTopicMap : GuidTopicMap)
  | expire
  | complete (i : Nat)

namespace RequestClient

def step (c : RequestClient) : ClientOp → RequestClient
  | .request message replyHandler errorHandler timeout zmqSend =>
    (c.request message replyHandler errorHandler timeout zmqSend).2
  | .receive result returns => c.onReceive result returns
  | .topicsChanged guidTopicMap => c.onDirectoryTopicsChanged guidTopicMap
  | .expire => { c with timeoutTimer := c.timeoutTimer.expire }
  | .complete i => c.complete i

def run (c : RequestClient) (ops : List ClientOp) : RequestClient := ops.foldl step c

end RequestClient

/-! ## What a step does -/

/-- One receive is outstanding, started by `r`. -/
structure Socket.Receives (s : Socket Request RequestErrorHandler) (r : Request) : Prop where
  receives : s.receives = 1
  handler : s.smartMessageHandler = some r
  errorHandler : s.errorHandler = r.errorHandler.map fun handler => { request := r, handler }

def Connection.receive (s : Connection) (r : Request) : Connection :=
  { s with socket := s.socket.receive r (r.errorHandler.map fun handler => { request := r, handler }) }

theorem newestTopic_eq_none {m : GuidTopicMap} : newestTopic m = none ↔ m.isEmpty = true := by
  rw [newestTopic, ← ExtTreeMap.isEmpty_toList]
  cases m.toList <;> simp

namespace RequestClient
variable {c : RequestClient}

def receiving (c : RequestClient) : Bool := c.socket.any fun s => 0 < s.socket.receives

/-- The reply to `r` is awaited on the current socket. -/
def Awaits (c : RequestClient) (r : Request) : Prop := ∃ s, c.socket = some s ∧ s.socket.Receives r

@[simp] theorem disconnect_eq (c : RequestClient) : c.disconnect = { c with socket := none } := by
  rw [disconnect, isConnected]
  split
  · next h =>
    have : c.socket = none := by simpa using h
    rw [← this]
  · rfl

theorem connect_eq (c : RequestClient) (topic : DirectoryTopic) : c.connect topic =
    if c.isConnected && topic = c.connectedTopic then c
    else { c with connectedTopic := topic, socket := some { address := topic.address } } := by
  rw [connect]
  split
  · rfl
  · dsimp only
    split <;> simp

theorem reconnect_eq (c : RequestClient) :
    c.reconnect = { c with socket := c.socket.map fun _ => { address := c.connectedTopic.address } } := by
  rw [reconnect, isConnected]
  cases h : c.socket with
  | none =>
    rw [if_pos (by rfl), Option.map_none, ← h]
  | some s => simp [connect_eq, isConnected]

/-- The request that a call of `request` makes if it is accepted. -/
def nextRequest (c : RequestClient) (replyHandler errorHandler : Option Nat) (timeout : ℚ) : Request :=
  { serial := c.accepted.length, replyHandler, errorHandler, timeout }

/-- The clients a step can lead to, if the receive of `c` is in order (`Inv`). -/
inductive Step (c : RequestClient) : ClientOp → RequestClient → Prop
  | rejected {message : MessageVector} {replyHandler errorHandler : Option Nat} {timeout : ℚ}
    {zmqSend : Nat → Option ErrorCode} (sent : List Part)
    (h : (c.request message replyHandler errorHandler timeout zmqSend).1 ≠ none) :
    Step c (.request message replyHandler errorHandler timeout zmqSend) { c with replyHandler, sent }
  | accepted {message : MessageVector} {replyHandler errorHandler : Option Nat} {timeout : ℚ}
    {zmqSend : Nat → Option ErrorCode} {s : Connection} {timeoutTimer : DeadlineTimer Request} (sent : List Part)
    (h : (c.request message replyHandler errorHandler timeout zmqSend).1 = none)
    (hwait : c.waitingForReceive = false) (hs : c.socket = some s)
    (htimer : timeoutTimer = c.timeoutTimer ∨ ∃ interval, timeoutTimer =
      (c.timeoutTimer.expiresFromNow interval).asyncWait (c.nextRequest replyHandler errorHandler timeout)) :
    Step c (.request message replyHandler errorHandler timeout zmqSend) { c with
      replyHandler, sent, timeoutTimer, waitingForReceive := true,
      socket := some (s.receive (c.nextRequest replyHandler errorHandler timeout)),
      accepted := c.accepted ++ [c.nextRequest replyHandler errorHandler timeout] }
  | deaf {result : Except ErrorCode Part} {returns : Bool} (h : c.receiving = false) :
    Step c (.receive result returns) c
  | part {part : Part} {returns : Bool} {r : Request} {s : Connection} (h : c.Awaits r) (hmore : part.more = true)
    (hs : s.socket.Receives r) : Step c (.receive (.ok part) returns) { c with socket := some s }
  | reply {part : Part} {returns : Bool} {r : Request} {s : Connection} (message : MessageVector) (h : c.Awaits r)
    (hlast : part.more = false) (hs : s.socket.receives = 0) :
    Step c (.receive (.ok part) returns) { c with
      timeoutTimer := c.timeoutTimer.cancel, waitingForReceive := false, socket := some s,
      callbacks := c.callbacks ++ [.reply r c.replyHandler message] }
  | error {returns : Bool} {r : Request} {s : Connection} (ec : ErrorCode) (h : c.Awaits r)
    (hs : s.socket.receives = 0) :
    Step c (.receive (.error ec) returns) { c with
      socket := some s,
      callbacks := c.callbacks ++ r.errorHandler.toList.map fun handler => .error r (some handler) ec }
  | kept {guidTopicMap : GuidTopicMap} (hc : c.isConnected = true)
    (h : newestTopic guidTopicMap = some c.connectedTopic) : Step c (.topicsChanged guidTopicMap) c
  | moved {guidTopicMap : GuidTopicMap} {socket : Option Connection} (connectedTopic : DirectoryTopic)
    (h : c.isConnected = true → newestTopic guidTopicMap ≠ some c.connectedTopic)
    (hs : ∀ s ∈ socket, s.socket.receives = 0) :
    Step c (.topicsChanged guidTopicMap) { c with socket, connectedTopic }
  | expire : Step c .expire { c with timeoutTimer := c.timeoutTimer.expire }
  | none {i : Nat} (h : c.timeoutTimer.take i = none) : Step c (.complete i) c
  | aborted {i : Nat} {r : Request} {timeoutTimer : DeadlineTimer Request}
    (h : c.timeoutTimer.take i = some ((r, false), timeoutTimer)) : Step c (.complete i) { c with timeoutTimer }
  | timedOut {i : Nat} {r : Request} {timeoutTimer : DeadlineTimer Request}
    (h : c.timeoutTimer.take i = some ((r, true), timeoutTimer)) :
    Step c (.complete i) { c with
      timeoutTimer := timeoutTimer.cancel, waitingForReceive := false,
      socket := c.socket.map fun _ => { address := c.connectedTopic.address },
      callbacks := c.callbacks ++ [.error r r.errorHandler .timedOut] }

/-- A receive is outstanding only for the latest request, while the client waits for its reply. -/
structure Inv (c : RequestClient) : Prop where
  receive : ∀ s ∈ c.socket, s.socket.receives = 0 ∨
    c.waitingForReceive = true ∧ ∃ r ∈ c.accepted.getLast?, s.socket.Receives r
  waits : ∀ r ∈ c.timeoutTimer.waits, r ∈ c.accepted
  completions : ∀ e ∈ c.timeoutTimer.completions, e.1 ∈ c.accepted
  serial : ∀ r ∈ c.accepted, r.serial < c.accepted.length

theorem Awaits.receiving {r : Request} (h : c.Awaits r) : c.receiving = true := by
  obtain ⟨s, hs, hr⟩ := h
  simp [RequestClient.receiving, hs, hr.receives]

theorem receiving_eq_false_iff : c.receiving = false ↔ ∀ s ∈ c.socket, s.socket.receives = 0 := by
  cases h : c.socket <;> simp [receiving, h]

theorem Inv.latest (h : c.Inv) {r : Request} (hr : c.Awaits r) :
    c.waitingForReceive = true ∧ r ∈ c.accepted.getLast? := by
  obtain ⟨s, hs, hsr⟩ := hr
  rcases h.receive s hs with h0 | ⟨hw, r', hr', hsr'⟩
  · exact absurd (h0.symm.trans hsr.receives) (by decide)
  · obtain rfl : r' = r := Option.some.inj (hsr'.handler.symm.trans hsr.handler)
    exact ⟨hw, hr'⟩

theorem Inv.awaits (h : c.Inv) {s : Connection} (hs : c.socket = some s) (h0 : s.socket.receives ≠ 0) :
    ∃ r, s.socket.Receives r := by
  rcases h.receive s hs with h1 | ⟨-, r, -, hr⟩
  · exact absurd h1 h0
  · exact ⟨r, hr⟩

theorem Inv.exists_awaits (h : c.Inv) (hrec : c.receiving = true) : ∃ r, c.Awaits r := by
  cases hs : c.socket with
  | none => simp [receiving, hs] at hrec
  | some s =>
    obtain ⟨r, hr⟩ := h.awaits hs (by simpa [receiving, hs, Nat.pos_iff_ne_zero] using hrec)
    exact ⟨r, s, hs, hr⟩

theorem request_cases (c : RequestClient) (message : MessageVector) (replyHandler errorHandler : Option Nat)
    (timeout : ℚ) (zmqSend : Nat → Option ErrorCode) :
    (∃ ec sent, c.request message replyHandler errorHandler timeout zmqSend =
      (some ec, { c with replyHandler, sent })) ∨
    ∃ s sent timeoutTimer, c.waitingForReceive = false ∧ c.socket = some s ∧
      (timeoutTimer = c.timeoutTimer ∨ ∃ interval, timeoutTimer =
        (c.timeoutTimer.expiresFromNow interval).asyncWait (c.nextRequest replyHandler errorHandler timeout)) ∧
      c.request message replyHandler errorHandler timeout zmqSend = (none, { c with
        replyHandler, sent, timeoutTimer, waitingForReceive := true,
        socket := some (s.receive (c.nextRequest replyHandler errorHandler timeout)),
        accepted := c.accepted ++ [c.nextRequest replyHandler errorHandler timeout] }) := by
  rw [request]
  dsimp only
  split
  · exact .inl ⟨_, c.sent, rfl⟩
  · next hwait =>
    have hwait : c.waitingForReceive = false := by simpa using hwait
    split
    · exact .inl ⟨_, c.sent, rfl⟩
    · next s hs =>
      split
      · exact .inl ⟨_, _, rfl⟩
      · split
        · exact .inr ⟨s, _, _, hwait, hs, .inr ⟨_, rfl⟩, rfl⟩
        · exact .inr ⟨s, _, _, hwait, hs, .inl rfl, rfl⟩

theorem onReceive_step (h : c.Inv) (result : Except ErrorCode Part) (returns : Bool) :
    Step c (.receive result returns) (c.onReceive result returns) := by
  rw [onReceive]
  split
  · next hs => exact .deaf (by simp [receiving, hs])
  next s hs =>
  split
  · next h0 => exact .deaf (by simp [receiving, hs, h0])
  next h0 =>
  obtain ⟨r, hr⟩ := h.awaits hs h0
  have haw : c.Awaits r := ⟨s, hs, hr⟩
  cases result with
  | error ec =>
    have h1 : s.socket.receives - 1 = 0 := by rw [hr.receives]
    have : Step c (.receive (.error ec) returns) _ :=
      .error (s := { s with socket := { s.socket with receives := s.socket.receives - 1 } }) ec haw h1
    cases he : r.errorHandler <;> simpa [Socket.onReceive, hr.errorHandler, he] using this
  | ok part =>
    cases hmore : part.more with
    | true =>
      rw [Socket.onReceive_more _ hmore]
      refine .part haw hmore ⟨?_, hr.handler, hr.errorHandler⟩
      simp [hr.receives]
    | false =>
      rw [Socket.onReceive_last _ hmore, hr.handler]
      refine .reply _ haw hmore ?_
      simp [hr.receives]

theorem onDirectoryTopicsChanged_step (c : RequestClient) (m : GuidTopicMap) :
    Step c (.topicsChanged m) (c.onDirectoryTopicsChanged m) := by
  rw [onDirectoryTopicsChanged]
  split
  · next hm =>
    rw [disconnect_eq]
    exact .moved _ (by simp [newestTopic_eq_none.2 hm]) (by simp)
  · next hm =>
    split
    · next ht => exact absurd (newestTopic_eq_none.1 ht) hm
    · next topic ht =>
      rw [connect_eq]
      split
      · next hkeep =>
        obtain ⟨hc, rfl⟩ : c.isConnected = true ∧ topic = c.connectedTopic := by simpa using hkeep
        exact .kept hc ht
      · next hmove =>
        refine .moved _ (fun hc => ?_) (by simp)
        rw [ht]
        rintro ⟨⟩
        exact hmove (by simp [hc])

theorem complete_step (c : RequestClient) (i : Nat) : Step c (.complete i) (c.complete i) := by
  rw [complete]
  split
  · next h => exact .none h
  · next r success timeoutTimer h =>
    cases success with
    | false => exact .aborted h
    | true =>
      rw [onTimeout, if_neg (by simp)]
      dsimp only
      rw [reconnect_eq]
      exact .timedOut h

theorem step_cases (h : c.Inv) (op : ClientOp) : Step c op (c.step op) := by
  cases op with
  | request message replyHandler errorHandler timeout zmqSend =>
    rw [step]
    rcases c.request_cases message replyHandler errorHandler timeout zmqSend with
      ⟨ec, sent, heq⟩ | ⟨s, sent, timer, hwait, hs, htimer, heq⟩
    · rw [heq]
      exact .rejected sent (by rw [heq]; simp)
    · rw [heq]
      exact .accepted sent (by rw [heq]) hwait hs htimer
  | receive result returns => exact onReceive_step h result returns
  | topicsChanged m => exact c.onDirectoryTopicsChanged_step m
  | expire => exact .expire
  | complete i => exact c.complete_step i

/-! ## The invariant -/

namespace Inv

theorem init : Inv {} := by
  constructor <;> simp

theorem timer (h : c.Inv) {timeoutTimer : DeadlineTimer Request}
    (hw : ∀ r ∈ timeoutTimer.waits, r ∈ c.timeoutTimer.waits)
    (hc : ∀ e ∈ timeoutTimer.completions, e ∈ c.timeoutTimer.completions ∨ e.1 ∈ c.timeoutTimer.waits) :
    Inv { c with timeoutTimer } where
  receive := h.receive
  waits r hr := h.waits r (hw r hr)
  completions e he := (hc e he).elim (h.completions e) (h.waits e.1)
  serial := h.serial

theorem cancel (h : c.Inv) : Inv { c with timeoutTimer := c.timeoutTimer.cancel } :=
  h.timer (by simp [DeadlineTimer.cancel]) fun _ he => DeadlineTimer.mem_cancel he

theorem take (h : c.Inv) {i : Nat} {e : Request × Bool} {timeoutTimer : DeadlineTimer Request}
    (ht : c.timeoutTimer.take i = some (e, timeoutTimer)) : Inv { c with timeoutTimer } ∧ e.1 ∈ c.accepted := by
  obtain ⟨-, hw, hp⟩ := DeadlineTimer.take_eq_some ht
  constructor
  · refine h.timer (fun r hr => hw ▸ hr) fun e he => .inl ?_
    exact hp.mem_iff.2 (List.mem_cons_of_mem _ he)
  · exact h.completions e (hp.mem_iff.2 List.mem_cons_self)

theorem idle (h : c.Inv) {callbacks : List Callback} {socket : Option Connection} {waitingForReceive : Bool}
    {connectedTopic : DirectoryTopic} (hs : ∀ s ∈ socket, s.socket.receives = 0) :
    Inv { c with callbacks, socket, waitingForReceive, connectedTopic } where
  receive s h := .inl (hs s h)
  waits := h.waits
  completions := h.completions
  serial := h.serial

theorem accept (h : c.Inv) {s : Connection} {r : Request} {replyHandler : Option Nat} {sent : List Part}
    {timeoutTimer : DeadlineTimer Request} (hwait : c.waitingForReceive = false) (hs : c.socket = some s)
    (hr : r.serial = c.accepted.length)
    (htimer : timeoutTimer = c.timeoutTimer ∨ ∃ interval, timeoutTimer =
      (c.timeoutTimer.expiresFromNow interval).asyncWait r) :
    Inv { c with
      replyHandler, sent, timeoutTimer, waitingForReceive := true, socket := some (s.receive r),
      accepted := c.accepted ++ [r] } := by
  have h0 : s.socket.receives = 0 := by
    rcases h.receive s hs with h0 | ⟨hw, -⟩
    · exact h0
    · rw [hwait] at hw; cases hw
  have hkeep : ∀ r' ∈ c.accepted, r' ∈ c.accepted ++ [r] := fun r' => List.mem_append_left _
  refine ⟨?_, ?_, ?_, ?_⟩
  · rintro _ ⟨⟩
    refine .inr ⟨rfl, r, by simp, ?_, rfl, rfl⟩
    simp [Connection.receive, Socket.receive, h0]
  · intro r' hr'
    rcases htimer with rfl | ⟨interval, rfl⟩
    · exact hkeep r' (h.waits r' hr')
    · exact List.mem_append_right _ hr'
  · intro e he
    refine hkeep e.1 ?_
    rcases htimer with rfl | ⟨interval, rfl⟩
    · exact h.completions e he
    · exact (DeadlineTimer.mem_cancel he).elim (h.completions e) (h.waits e.1)
  · intro r' hr'
    rw [List.length_append, List.length_singleton]
    rcases List.mem_append.1 hr' with hr' | hr'
    · exact (h.serial r' hr').trans (Nat.lt_succ_self _)
    · rw [List.mem_singleton.1 hr', hr]
      exact Nat.lt_succ_self _

theorem step (h : c.Inv) (op : ClientOp) : (c.step op).Inv := by
  have hstep := step_cases h op
  generalize c.step op = c' at hstep ⊢
  cases hstep with
  | rejected => exact ⟨h.receive, h.waits, h.completions, h.serial⟩
  | accepted sent _ hwait hs htimer => exact h.accept hwait hs rfl htimer
  | deaf | kept | none => exact h
  | part haw _ hs =>
    refine ⟨?_, h.waits, h.completions, h.serial⟩
    rintro _ ⟨⟩
    exact .inr ⟨(h.latest haw).1, _, (h.latest haw).2, hs⟩
  | reply _ _ _ hs => exact h.cancel.idle (by simpa using hs)
  | error _ _ hs => exact h.idle (by simpa using hs)
  | moved _ _ hs => exact h.idle hs
  | expire => exact h.timer (by simp [DeadlineTimer.expire]) fun _ he => DeadlineTimer.mem_expire he
  | aborted ht => exact (h.take ht).1
  | timedOut ht => exact (h.take ht).1.cancel.idle (by simp)

theorem run (ops : List ClientOp) : (RequestClient.run {} ops).Inv := Run.invariant (fun _ op h => h.step op) init

end Inv
end RequestClient
end A17.Dispatch
