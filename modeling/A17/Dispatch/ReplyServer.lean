import A17.Lib.Run
import A17.Dispatch.Socket

/-!
# `ReplyServer`

`reply_server.cpp`. The server receives a request, passes it to the application's handler and receives
again once the reply is out, which may be during the call of the handler, after it has thrown, or later.
A `ZMQ_REP` socket takes a reply only for a request that is pending (`EFSM` otherwise) and delivers
nothing meanwhile, so requests and replies have to alternate (`RepEvent.replay`). They do, except that a handler
that replies and then throws is answered for a second time (`RepliesThenThrows`).
-/

namespace A17.Dispatch

def EFSM : ErrorCode := .zmq 156384763

/-- What happens on the `ZMQ_REP` socket; a reply has the outcome of its `send`. -/
inductive RepEvent where
  | request (message : MessageVector)
  | reply (message : MessageVector) (ec : Option ErrorCode)
deriving DecidableEq

/-- What a handler does during its call: it may invoke the sender, and then it returns or throws a
`std::exception`. One that returns without a reply invokes the sender later. -/
structure HandlerCall where
  reply : Option MessageVector
  throws : Bool
deriving DecidableEq

structure ReplyServer where
  socket : Socket Unit Nat := {}
  errorHandler : Option Nat := none
  /-- The socket has delivered a request that is not answered. -/
  pending : Bool := false
  /-- How many senders are still to be invoked. -/
  deferred : Nat := 0
  log : List RepEvent := []
deriving DecidableEq

namespace ReplyServer

def send (s : ReplyServer) (message : MessageVector) : ReplyServer :=
  let (_, ec) := Socket.send message fun _ => if s.pending then none else some EFSM
  { s with pending := s.pending && ec.isSome, log := s.log ++ [.reply message ec] }

def receive (s : ReplyServer) : ReplyServer := { s with socket := s.socket.receive () s.errorHandler }

def new (errorHandler : Option Nat) : ReplyServer := receive { errorHandler }

def sendReply (s : ReplyServer) (reply : MessageVector) : ReplyServer := (s.send reply).receive

def onRequest (s : ReplyServer) (call : HandlerCall) : ReplyServer :=
  let s' :=
    match call.reply with
    | some reply => s.sendReply reply
    | none => s
  if call.throws then (s'.send []).receive
  else
    match call.reply with
    | some _ => s'
    | none => { s' with deferred := s'.deferred + 1 }

end ReplyServer

inductive ServerOp where
  | receive (result : Except ErrorCode Part) (call : HandlerCall)
  | reply (message : MessageVector)

namespace ReplyServer

/-- An outstanding receive completes; `call` is what the handler does if it is called. -/
def onReceive (s : ReplyServer) (result : Except ErrorCode Part) (call : HandlerCall) : ReplyServer :=
  -- the socket delivers no part while a request is pending
  if s.socket.receives = 0 || s.pending && result.isOk then s
  else
    let (socket, upcall) := s.socket.onReceive result
    let s := { s with socket }
    match upcall with
    | .message (some ()) message =>
      let s : ReplyServer := { s with pending := true, log := s.log ++ [.request message] }
      let s := s.onRequest call
      { s with socket := s.socket.handled true }
    -- the error handler does nothing to the server
    | .message none _ | .error _ _ | .none => s

def step (s : ReplyServer) : ServerOp → ReplyServer
  | .receive result call => s.onReceive result call
  | .reply message => if s.deferred = 0 then s else { s with deferred := s.deferred - 1 }.sendReply message

end ReplyServer

/-- The state of a strict request and reply alternation: whether a request is pending, `none` once it is
violated. -/
def RepEvent.next : Option Bool → RepEvent → Option Bool
  | some false, .request _ => some true
  | some true, .reply _ none => some false
  | _, _ => none

def RepEvent.replay (log : List RepEvent) : Option Bool := log.foldl RepEvent.next (some false)

theorem RepEvent.replay_concat (log : List RepEvent) (e : RepEvent) :
    RepEvent.replay (log ++ [e]) = e.next (RepEvent.replay log) := by
  rw [RepEvent.replay, List.foldl_concat]; rfl

namespace ReplyServer
variable {s : ReplyServer}

/-- Requests and replies alternate, a request is without a reply only as long as its handler defers it, and
at most one receive is outstanding. -/
def Alternates (s : ReplyServer) : Prop :=
  RepEvent.replay s.log = some (decide (0 < s.deferred)) ∧ s.deferred ≤ 1 ∧ s.socket.receives ≤ 1

/-- A handler is called that replies and then throws. -/
def RepliesThenThrows (s : ReplyServer) : ServerOp → Prop
  | .receive (.ok part) call => s.pending = false ∧ 0 < s.socket.receives ∧ part.more = false ∧
    call.reply.isSome = true ∧ call.throws = true
  | _ => False

/-- Either the server waits for a request or a handler for its reply. -/
structure Inv (s : ReplyServer) : Prop where
  log : RepEvent.replay s.log = some s.pending
  pending : s.pending = decide (0 < s.deferred)
  deferred : s.deferred ≤ 1
  handler : s.socket.smartMessageHandler = some ()
  receives : s.socket.receives + s.deferred ≤ 1

theorem Inv.alternates (h : s.Inv) : s.Alternates := by
  have := h.receives
  exact ⟨h.pending ▸ h.log, h.deferred, by omega⟩

/-- A reply to a pending request goes out. -/
theorem send_of_pending (h : s.pending = true) (message : MessageVector) :
    s.send message = { s with pending := false, log := s.log ++ [.reply message none] } := by
  simp only [send, h, if_true, Socket.send_ok]
  rfl

theorem send_of_not_pending (h : s.pending = false) (message : MessageVector) :
    s.send message = { s with log := s.log ++ [.reply message (some EFSM)] } := by
  simp [send, h, Socket.send_error]

/-- A request has come in and its handler is called, no receive being outstanding. -/
structure Called (s : ReplyServer) : Prop where
  log : RepEvent.replay s.log = some true
  pending : s.pending = true
  deferred : s.deferred = 0
  handler : s.socket.smartMessageHandler = some ()
  receives : s.socket.receives = 0

theorem Called.sendReply (h : s.Called) (reply : MessageVector) : (s.sendReply reply).Inv := by
  rw [ReplyServer.sendReply, send_of_pending h.pending]
  refine ⟨?_, ?_, ?_, rfl, ?_⟩
  · rw [receive, RepEvent.replay_concat, h.log]; rfl
  · simp [receive, h.deferred]
  · simp [receive, h.deferred]
  · simp [receive, Socket.receive, h.deferred, h.receives]

theorem Called.onRequest (h : s.Called) {call : HandlerCall}
    (hcall : ¬ (call.reply.isSome = true ∧ call.throws = true)) : (s.onRequest call).Inv := by
  obtain ⟨reply, throws⟩ := call
  cases reply with
  | some reply =>
    have hret : throws = false := by simpa using hcall
    rw [hret]
    exact h.sendReply reply
  | none =>
    cases throws with
    | true => exact h.sendReply []
    | false =>
      refine ⟨?_, ?_, ?_, h.handler, ?_⟩
      · exact h.log.trans (congrArg some h.pending.symm)
      · simp [ReplyServer.onRequest, h.pending]
      · simp [ReplyServer.onRequest, h.deferred]
      · simp [ReplyServer.onRequest, h.deferred, h.receives]

/-- The blank reply of the exception path finds no request to answer. -/
theorem Called.not_alternates (h : s.Called) {call : HandlerCall}
    (hcall : call.reply.isSome = true ∧ call.throws = true) : RepEvent.replay (s.onRequest call).log = none := by
  obtain ⟨reply, throws⟩ := call
  obtain ⟨⟨reply, rfl⟩, rfl⟩ : (∃ m, reply = some m) ∧ throws = true := by simpa [Option.isSome_iff_exists] using hcall
  have hinv := h.sendReply reply
  have hp : (s.sendReply reply).pending = false := by
    rw [ReplyServer.sendReply, send_of_pending h.pending]; rfl
  simp only [ReplyServer.onRequest, if_true, send_of_not_pending hp, receive, RepEvent.replay_concat, hinv.log, hp]
  rfl

namespace Inv

theorem setSocket (h : s.Inv) {socket : Socket Unit Nat} (hh : socket.smartMessageHandler = some ())
    (hr : socket.receives ≤ s.socket.receives) : Inv { s with socket } :=
  ⟨h.log, h.pending, h.deferred, hh, by have := h.receives; simp only; omega⟩

/-- The last part of a request comes in, and its handler is called. -/
theorem onReceive_last (h : s.Inv) (hp : s.pending = false) (hr : 0 < s.socket.receives) {part : Part}
    (hlast : part.more = false) (call : HandlerCall) : ∃ s' : ReplyServer, s'.Called ∧
      s.onReceive (.ok part) call = { s'.onRequest call with socket := (s'.onRequest call).socket.handled true } := by
  have hd : s.deferred = 0 := by
    have := h.pending
    rw [hp] at this
    simpa using this.symm
  have h1 : s.socket.receives - 1 = 0 := by
    have := h.receives
    omega
  have hgo : ¬ (s.socket.receives = 0 || s.pending && (Except.ok part : Except ErrorCode Part).isOk) = true := by
    simp [hp, Nat.pos_iff_ne_zero.1 hr]
  rw [onReceive, if_neg hgo, Socket.onReceive_last _ hlast, h.handler]
  refine ⟨_, ?_, rfl⟩
  refine ⟨?_, rfl, hd, rfl, h1⟩
  rw [RepEvent.replay_concat, h.log, hp]; rfl

theorem step (h : s.Inv) {op : ServerOp} (hop : ¬ s.RepliesThenThrows op) : (s.step op).Inv := by
  cases op with
  | reply message =>
    rw [ReplyServer.step]
    split
    · exact h
    · next hd =>
      have h1 : s.deferred = 1 := by
        have := h.deferred
        omega
      have hp : s.pending = true := by rw [h.pending, h1]; rfl
      have h0 : s.socket.receives = 0 := by
        have := h.receives
        omega
      have hcalled : Called { s with deferred := s.deferred - 1 } :=
        ⟨h.log.trans (congrArg some hp), hp, by simp [h1], h.handler, h0⟩
      exact hcalled.sendReply message
  | receive result call =>
    rw [ReplyServer.step]
    by_cases hgo : (s.socket.receives = 0 || s.pending && result.isOk) = true
    · rwa [onReceive, if_pos hgo]
    cases result with
    | error ec =>
      rw [onReceive, if_neg hgo]
      cases he : s.socket.errorHandler with
      | none =>
        simp only [Socket.onReceive, he]
        exact h.setSocket h.handler (Nat.sub_le _ _)
      | some handler =>
        simp only [Socket.onReceive, he]
        exact h.setSocket h.handler (Nat.sub_le _ _)
    | ok part =>
      obtain ⟨hr, hp⟩ : s.socket.receives ≠ 0 ∧ s.pending = false := by simpa [Except.isOk, Except.toBool] using hgo
      cases hmore : part.more with
      | true =>
        rw [onReceive, if_neg hgo, Socket.onReceive_more _ hmore]
        exact h.setSocket h.handler (by simp only; omega)
      | false =>
        obtain ⟨s', hs', heq⟩ := h.onReceive_last hp (Nat.pos_of_ne_zero hr) hmore call
        rw [heq]
        have hinv := hs'.onRequest fun hcall => hop ⟨hp, Nat.pos_of_ne_zero hr, hmore, hcall⟩
        exact hinv.setSocket hinv.handler (Nat.le_refl _)

theorem not_alternates (h : s.Inv) {op : ServerOp} (hop : s.RepliesThenThrows op) : ¬ (s.step op).Alternates := by
  cases op with
  | reply message => exact hop.elim
  | receive result call =>
    cases result with
    | error ec => exact hop.elim
    | ok part =>
      obtain ⟨hp, hr, hlast, hcall⟩ := hop
      obtain ⟨s', hs', heq⟩ := h.onReceive_last hp hr hlast call
      rintro ⟨hlog, -⟩
      rw [ReplyServer.step, heq] at hlog
      have := hs'.not_alternates hcall
      rw [hlog] at this; cases this

theorem init (errorHandler : Option Nat) : (new errorHandler).Inv := ⟨rfl, rfl, Nat.zero_le _, rfl, Nat.le_refl _⟩

end Inv

/-- In a run requests and replies alternate, with at most one receive outstanding, exactly if no handler
replies and then throws. -/
theorem alternates_iff_not_repliesThenThrows (errorHandler : Option Nat) (ops : List ServerOp) :
    Run.States step Alternates (new errorHandler) ops ↔
      Run.Steps step (fun s op => ¬ s.RepliesThenThrows op) (new errorHandler) ops :=
  Run.states_iff_steps (I := Inv) (fun _ h => h.alternates) (fun _ _ h hop => h.step hop)
    (fun _ _ h hop => h.not_alternates (not_not.1 hop)) (Inv.init errorHandler)

/-- A handler replies and then throws: the blank reply is a second one, and two receives are outstanding. -/
theorem second_reply_after_throw :
    ¬ ∀ ops, Run.States step Alternates (new none) ops := by
  intro h
  have hlast := (h [.receive (.ok ⟨[1], false⟩) ⟨some [[2]], true⟩]).last
  exact absurd hlast.2.2 (by decide)

end ReplyServer
end A17.Dispatch
