import A17.Dispatch.Parts
import A17.Dispatch.ReplyServer
import A17.Dispatch.SocketRuns

/-!
# The requests that a `ReplyServer` answers

The socket under a `ReplyServer`. A `ZMQ_REP` socket takes up one request after another, delivers it part by part, and
sends the reply to the peer the request came from; until then it takes up no other. So whatever the handlers do, what
the server sees is one request after another, each with the reply that went to its peer (`Inv.log`).
-/

namespace A17.Dispatch

/-- `τ` names a request on the wire. -/
structure RepSocket (τ : Type) where
  server : ReplyServer
  /-- The request taken up, and its message. -/
  current : Option (τ × MessageVector) := none
  /-- The parts of it that are not delivered yet. -/
  serving : List Part := []
  /-- The requests answered, with the replies that went out. -/
  answered : List ((τ × MessageVector) × MessageVector) := []

/-- A reply that went out. -/
def RepEvent.sent : RepEvent → Option MessageVector
  | .reply message none => some message
  | _ => none

/-- The events but for the replies that failed. -/
def RepEvent.completed (log : List RepEvent) : List RepEvent :=
  log.filter fun | .reply _ (some _) => false | _ => true

namespace RepSocket
variable {τ : Type}

def new (errorHandler : Option Nat) : RepSocket τ := { server := ReplyServer.new errorHandler }

def takeUp (r : RepSocket τ) (request : τ) (message : MessageVector) : RepSocket τ :=
  match r.current with
  | some _ => r
  | none => { r with current := some (request, message), serving := Socket.parts message }

/-- The server has gone on; a reply that it has sent goes to the peer of the current request. -/
def answer (r : RepSocket τ) (server : ReplyServer) : RepSocket τ :=
  match r.current, (server.log.drop r.server.log.length).findSome? RepEvent.sent with
  | some request, some reply => { r with server, current := none, answered := r.answered ++ [(request, reply)] }
  | _, _ => { r with server }

/-- The server receives the next part; `call` is what the handler does if it is called. -/
def serve (r : RepSocket τ) (call : HandlerCall) : RepSocket τ :=
  if r.server.socket.receives = 0 then r
  else
    match r.serving with
    | [] => r
    | part :: serving => { r with serving }.answer (r.server.onReceive (.ok part) call)

def fail (r : RepSocket τ) (ec : ErrorCode) (call : HandlerCall) : RepSocket τ :=
  r.answer (r.server.onReceive (.error ec) call)

/-- A sender is invoked that a handler has kept. -/
def reply (r : RepSocket τ) (message : MessageVector) : RepSocket τ := r.answer (r.server.step (.reply message))

end RepSocket

/-! ### What the server does -/

namespace ReplyServer
variable {s : ReplyServer}

theorem completed_append (l l' : List RepEvent) :
    RepEvent.completed (l ++ l') = RepEvent.completed l ++ RepEvent.completed l' := List.filter_append ..

/-- What the server has done since: nothing that went out, or the reply to the request that was pending. -/
structure Goes (s s' : ReplyServer) : Prop where
  handler : s'.socket.smartMessageHandler = s.socket.smartMessageHandler ∨ s'.socket.smartMessageHandler = some ()
  log : ∃ l, s'.log = s.log ++ l ∧
    (s'.pending = s.pending ∧ RepEvent.completed l = [] ∧ l.findSome? RepEvent.sent = none ∨
      ∃ reply, s.pending = true ∧ s'.pending = false ∧ RepEvent.completed l = [.reply reply none] ∧
        l.findSome? RepEvent.sent = some reply)
  received : s'.socket.receivedMessage = s.socket.receivedMessage

theorem goes_refl (s : ReplyServer) : s.Goes s :=
  ⟨.inl rfl, ⟨[], by simp, .inl ⟨rfl, rfl, rfl⟩⟩, rfl⟩

theorem goes_sendReply (s : ReplyServer) (reply : MessageVector) : s.Goes (s.sendReply reply) := by
  unfold sendReply
  cases hp : s.pending with
  | true =>
    rw [send_of_pending hp]
    exact ⟨.inr rfl, ⟨_, rfl, .inr ⟨reply, hp, rfl, rfl, rfl⟩⟩, rfl⟩
  | false =>
    rw [send_of_not_pending hp]
    exact ⟨.inr rfl, ⟨_, rfl, .inl ⟨rfl, rfl, rfl⟩⟩, rfl⟩

/-- After a reply nothing is pending, so that another one fails. -/
theorem Goes.sendReply {s' : ReplyServer} (h : s.Goes s') (hp : s'.pending = false) (reply : MessageVector) :
    s.Goes (s'.sendReply reply) := by
  obtain ⟨l, hlog, hl⟩ := h.log
  unfold ReplyServer.sendReply
  rw [send_of_not_pending hp]
  refine ⟨.inr rfl, ⟨l ++ [.reply reply (some EFSM)], ?_, ?_⟩, h.received⟩
  · show s'.log ++ _ = _
    rw [hlog, List.append_assoc]
  · have hfind : (l ++ [RepEvent.reply reply (some EFSM)]).findSome? RepEvent.sent = l.findSome? RepEvent.sent := by
      rw [List.findSome?_append]
      exact Option.or_none
    have hcompleted : RepEvent.completed (l ++ [RepEvent.reply reply (some EFSM)]) = RepEvent.completed l := by
      rw [completed_append]
      exact List.append_nil _
    rw [hfind, hcompleted]
    exact hl

theorem goes_onRequest (s : ReplyServer) (call : HandlerCall) : s.Goes (s.onRequest call) := by
  obtain ⟨reply, throws⟩ := call
  cases reply with
  | none =>
    cases throws with
    | true => exact goes_sendReply s []
    | false => exact ⟨.inl rfl, ⟨[], by simp [onRequest], .inl ⟨rfl, rfl, rfl⟩⟩, rfl⟩
  | some reply =>
    cases throws with
    | false => exact goes_sendReply s reply
    | true =>
      refine (goes_sendReply s reply).sendReply ?_ []
      cases hp : s.pending with
      | true =>
        unfold sendReply
        rw [send_of_pending hp]
        rfl
      | false =>
        unfold sendReply
        rw [send_of_not_pending hp]
        exact hp

theorem goes_reply (s : ReplyServer) (message : MessageVector) : s.Goes (s.step (.reply message)) := by
  unfold step
  dsimp only
  split
  · exact goes_refl s
  · have h := goes_sendReply { s with deferred := s.deferred - 1 } message
    exact ⟨h.handler, h.log, h.received⟩

theorem goes_error (s : ReplyServer) (ec : ErrorCode) (call : HandlerCall) :
    s.Goes (s.onReceive (.error ec) call) := by
  unfold onReceive
  split
  · exact goes_refl s
  · cases herr : s.socket.errorHandler <;>
      simp only [Socket.onReceive, herr] <;> exact ⟨.inl rfl, ⟨[], by simp, .inl ⟨rfl, rfl, rfl⟩⟩, rfl⟩

/-- The last part of a request comes in, and its handler is called. -/
theorem onReceive_last (hp : s.pending = false) (hr : s.socket.receives ≠ 0)
    (hh : s.socket.smartMessageHandler = some ()) {part : Part} (hlast : part.more = false) (call : HandlerCall) :
    (s.onReceive (.ok part) call).socket.smartMessageHandler = some () ∧
      (s.onReceive (.ok part) call).socket.receivedMessage = [] ∧
      ∃ l, (s.onReceive (.ok part) call).log =
          s.log ++ .request (s.socket.receivedMessage ++ part.kept) :: l ∧
        ((s.onReceive (.ok part) call).pending = true ∧ RepEvent.completed l = [] ∧
            l.findSome? RepEvent.sent = none ∨
          ∃ reply, (s.onReceive (.ok part) call).pending = false ∧ RepEvent.completed l = [.reply reply none] ∧
            l.findSome? RepEvent.sent = some reply) := by
  have hgo : ¬ (s.socket.receives = 0 || s.pending && (Except.ok part : Except ErrorCode Part).isOk) = true := by
    simp [hp, hr]
  obtain ⟨s', hp', hhandler, hlog, heq⟩ : ∃ s' : ReplyServer, s'.pending = true ∧
      s'.socket.smartMessageHandler = some () ∧
      s'.log = s.log ++ [.request (s.socket.receivedMessage ++ part.kept)] ∧
      s.onReceive (.ok part) call =
        { s'.onRequest call with socket := (s'.onRequest call).socket.handled true } := by
    unfold onReceive
    rw [if_neg hgo, Socket.onReceive_last _ hlast, hh]
    exact ⟨_, rfl, rfl, rfl, rfl⟩
  have hg := s'.goes_onRequest call
  rw [heq]
  refine ⟨?_, rfl, ?_⟩
  · show (s'.onRequest call).socket.smartMessageHandler = some ()
    rcases hg.handler with hsame | hsome
    · rw [hsame]
      exact hhandler
    · exact hsome
  · obtain ⟨l, hl, hcases⟩ := hg.log
    refine ⟨l, ?_, ?_⟩
    · show (s'.onRequest call).log = _
      rw [hl, hlog, List.append_assoc, List.singleton_append]
    · rcases hcases with ⟨hpend, h⟩ | ⟨reply, -, h⟩
      · exact .inl ⟨hpend.trans hp', h⟩
      · exact .inr ⟨reply, h⟩

theorem onReceive_more (hp : s.pending = false) (hr : s.socket.receives ≠ 0) {part : Part} (hmore : part.more = true)
    (call : HandlerCall) : s.onReceive (.ok part) call = { s with socket := { s.socket with
      receivedMessage := s.socket.receivedMessage ++ part.kept, receives := s.socket.receives - 1 + 1 } } := by
  have hgo : ¬ (s.socket.receives = 0 || s.pending && (Except.ok part : Except ErrorCode Part).isOk) = true := by
    simp [hp, hr]
  unfold onReceive
  rw [if_neg hgo, Socket.onReceive_more _ hmore]

end ReplyServer

/-! ### What the server sees -/

namespace RepSocket
variable {τ : Type} {r : RepSocket τ}

/-- A request and the reply to it, as the server sees them. -/
def exchange (answered : (τ × MessageVector) × MessageVector) : List RepEvent :=
  [.request (Socket.nonEmpty answered.1.2), .reply answered.2 none]

/-- The request that is being answered. -/
def pendingRequest (r : RepSocket τ) : List RepEvent :=
  if r.server.pending then r.current.toList.map fun request => .request (Socket.nonEmpty request.2) else []

/-- `frames` have been delivered of the current request. -/
structure Inv (frames : MessageVector) (r : RepSocket τ) : Prop where
  handler : r.server.socket.smartMessageHandler = some ()
  received : r.server.socket.receivedMessage = Socket.nonEmpty frames
  log : RepEvent.completed r.server.log = r.answered.flatMap exchange ++ r.pendingRequest
  idle : r.current = none → r.server.pending = false
  ended : r.current = none ∨ r.server.pending = true → frames = [] ∧ r.serving = []
  reading : ∀ request ∈ r.current, r.server.pending = false →
    Socket.parts request.2 = Socket.opened frames ++ r.serving

variable {frames : MessageVector}

theorem answer_of_none {server : ReplyServer} {l : List RepEvent} (hlog : server.log = r.server.log ++ l)
    (h : l.findSome? RepEvent.sent = none) : r.answer server = { r with server } := by
  unfold answer
  rw [hlog, List.drop_left, h]
  cases r.current <;> rfl

theorem answer_of_some {server : ReplyServer} {l : List RepEvent} (hlog : server.log = r.server.log ++ l)
    {reply : MessageVector} (h : l.findSome? RepEvent.sent = some reply) {request : τ × MessageVector}
    (hcurrent : r.current = some request) :
    r.answer server = { r with server, current := none, answered := r.answered ++ [(request, reply)] } := by
  unfold answer
  rw [hlog, List.drop_left, h, hcurrent]

/-- The server goes on without receiving a part. -/
theorem Inv.answer (h : r.Inv frames) {server : ReplyServer} (hg : r.server.Goes server) :
    (r.answer server).Inv frames := by
  have hhandler : server.socket.smartMessageHandler = some () := by
    rcases hg.handler with hsame | hsome
    · rw [hsame]
      exact h.handler
    · exact hsome
  obtain ⟨l, hlog, ⟨hp, hcompleted, hfind⟩ | ⟨reply, hp, hp', hcompleted, hfind⟩⟩ := hg.log
  · rw [answer_of_none hlog hfind]
    refine ⟨hhandler, hg.received.trans h.received, ?_, ?_, ?_, ?_⟩
    · show RepEvent.completed server.log = _
      rw [hlog, ReplyServer.completed_append, hcompleted, List.append_nil, h.log]
      unfold pendingRequest
      rw [hp]
    · exact fun hnone => hp.trans (h.idle hnone)
    · exact fun hor => h.ended (hor.imp_right fun htrue => hp.symm.trans htrue)
    · exact fun request hrequest hfalse => h.reading request hrequest (hp.symm.trans hfalse)
  · obtain ⟨request, hcurrent⟩ : ∃ request, r.current = some request := by
      rw [← Option.ne_none_iff_exists']
      intro hnone
      rw [h.idle hnone] at hp
      cases hp
    rw [answer_of_some hlog hfind hcurrent]
    refine ⟨hhandler, hg.received.trans h.received, ?_, fun _ => hp', fun _ => h.ended (.inr hp), ?_⟩
    · show RepEvent.completed server.log = _
      rw [hlog, ReplyServer.completed_append, hcompleted, h.log]
      simp [pendingRequest, hp, hp', hcurrent, exchange]
    · intro request hrequest
      cases hrequest

theorem Inv.takeUp (h : r.Inv frames) (request : τ) (message : MessageVector) :
    (r.takeUp request message).Inv frames := by
  unfold RepSocket.takeUp
  split
  · exact h
  · next hnone =>
    have hp := h.idle hnone
    obtain ⟨rfl, -⟩ := h.ended (.inl hnone)
    refine ⟨h.handler, h.received, ?_, fun _ => hp, ?_, ?_⟩
    · have hlog := h.log
      unfold pendingRequest at hlog ⊢
      rw [hp] at hlog ⊢
      exact hlog
    · rintro (habs | htrue)
      · cases habs
      · rw [hp] at htrue
        cases htrue
    · rintro request hrequest -
      obtain rfl := Option.some.inj hrequest
      rfl

theorem Inv.serve (h : r.Inv frames) (call : HandlerCall) : ∃ frames', (r.serve call).Inv frames' := by
  unfold RepSocket.serve
  split
  · exact ⟨frames, h⟩
  next hr =>
  split
  · exact ⟨frames, h⟩
  next part serving hserving =>
  -- a part is left, so that the request is not pending
  have hp : r.server.pending = false := by
    by_contra hp
    have := (h.ended (.inr (by simpa using hp))).2
    rw [hserving] at this
    cases this
  obtain ⟨request, hcurrent⟩ : ∃ request, r.current = some request := by
    rw [← Option.ne_none_iff_exists']
    intro hnone
    have := (h.ended (.inl hnone)).2
    rw [hserving] at this
    cases this
  have hparts := h.reading request hcurrent hp
  rw [hserving] at hparts
  have hkept : r.server.socket.receivedMessage ++ part.kept = Socket.nonEmpty (frames ++ [part.frame]) := by
    rw [h.received]
    exact Reception.kept_append ({ message := frames } : Reception Unit Nat) part
  cases hmore : part.more with
  | true =>
    have hpart : part = ⟨part.frame, true⟩ := by rw [← hmore]
    rw [ReplyServer.onReceive_more hp hr hmore, hkept, answer_of_none (l := []) (by simp) rfl]
    refine ⟨frames ++ [part.frame], h.handler, rfl, h.log, h.idle, ?_, ?_⟩
    · rintro (hnone | htrue)
      · have habs : r.current = none := hnone
        rw [hcurrent] at habs
        cases habs
      · have habs : r.server.pending = true := htrue
        rw [hp] at habs
        cases habs
    · intro request' hrequest' _
      obtain rfl : request = request' := Option.some.inj (hcurrent.symm.trans hrequest')
      rw [hparts, Socket.opened_concat, List.append_assoc, List.singleton_append, ← hpart]
  | false =>
    have hpart : part = ⟨part.frame, false⟩ := by rw [← hmore]
    have hsplit : Socket.parts request.2 ++ [] = Socket.opened frames ++ ⟨part.frame, false⟩ :: serving := by
      rw [List.append_nil, ← hpart]
      exact hparts
    obtain ⟨hmessage, rfl⟩ := Socket.parts_split hsplit
    obtain ⟨hhandler, hreceived, l, hlog, hcases⟩ := ReplyServer.onReceive_last hp hr h.handler hmore call
    generalize r.server.onReceive (.ok part) call = server at hhandler hreceived hlog hcases ⊢
    rw [hkept, hmessage] at hlog
    have hold : RepEvent.completed r.server.log = r.answered.flatMap exchange := by
      have := h.log
      rwa [pendingRequest, hp, if_neg (by simp), List.append_nil] at this
    have hnew : RepEvent.completed server.log =
        r.answered.flatMap exchange ++ .request (Socket.nonEmpty request.2) :: RepEvent.completed l := by
      rw [hlog, ReplyServer.completed_append, hold]
      rfl
    rcases hcases with ⟨hpend, hcompleted, hfind⟩ | ⟨reply, hpend, hcompleted, hfind⟩
    · rw [answer_of_none (r := { r with serving := [] }) hlog hfind]
      refine ⟨[], hhandler, hreceived, ?_, ?_, fun _ => ⟨rfl, rfl⟩, ?_⟩
      · show RepEvent.completed server.log = _
        rw [hnew, hcompleted]
        simp [pendingRequest, hpend, hcurrent]
      · intro hnone
        have habs : r.current = none := hnone
        rw [hcurrent] at habs
        cases habs
      · intro _ _ hfalse
        have habs : server.pending = false := hfalse
        rw [hpend] at habs
        cases habs
    · rw [answer_of_some (r := { r with serving := [] }) hlog hfind hcurrent]
      refine ⟨[], hhandler, hreceived, ?_, fun _ => hpend, fun _ => ⟨rfl, rfl⟩, ?_⟩
      · show RepEvent.completed server.log = _
        rw [hnew, hcompleted]
        simp [pendingRequest, hpend, exchange]
      · intro _ habs
        cases habs

theorem inv_new (errorHandler : Option Nat) : (new errorHandler : RepSocket τ).Inv [] :=
  ⟨rfl, rfl, rfl, fun _ => rfl, fun _ => ⟨rfl, rfl⟩, fun _ habs => by cases habs⟩

end RepSocket
end A17.Dispatch
