import Mathlib.Logic.Function.Basic
import A17.Dispatch.RepSocket
import A17.Dispatch.RequestRuns

/-!
# Clients and servers

Any number of `RequestClient`s and of `ReplyServer`s, with the requests and replies between them. A `ZMQ_REQ` socket
is given the replies to its own requests only, and what is on its way to a socket that is gone is dropped. That is
why a client makes a new socket when a request has timed out.
-/

namespace A17.Dispatch

/-- Where a request is: on its way, taken up by its server, answered with the reply on its way, or done with (the reply
has arrived, or either is lost). -/
inductive Stage where
  | request
  | serving
  | reply (message : MessageVector)
  | done
deriving DecidableEq

/-- A request that was sent: by which client, on which of its sockets, to which address. -/
structure Envelope (ι : Type) where
  client : ι
  socket : Nat
  address : Str
  request : Request
  message : MessageVector
  stage : Stage := .request

/-- A server is named by its address, a request by its number in `envelopes`. -/
structure Exchange (ι : Type) where
  clients : ι → RequestClient
  /-- How many sockets the client has given up. -/
  sockets : ι → Nat
  /-- The parts that wait in the current socket of the client. -/
  inbox : ι → List Part
  servers : Str → RepSocket Nat
  envelopes : List (Envelope ι) := []

inductive ExchangeOp (ι : Type) where
  | request (i : ι) (message : MessageVector) (replyHandler errorHandler : Option Nat) (timeout : ℚ) (sends : Bool)
  | topicsChanged (i : ι) (guidTopicMap : GuidTopicMap)
  | expire (i : ι)
  | complete (i : ι) (k : Nat)
  | receive (i : ι) (returns : Bool)
  | fail (i : ι) (ec : ErrorCode)
  | takeUp (k : Nat)
  | serve (address : Str) (call : HandlerCall)
  | reply (address : Str) (message : MessageVector)
  | failServer (address : Str) (ec : ErrorCode) (call : HandlerCall)
  | deliver (k : Nat)
  | lose (k : Nat)

def EAGAIN : ErrorCode := .zmq 11

/-- The client gives up its socket, if it has one. -/
def RequestClient.renews (c : RequestClient) : ClientOp → Bool
  | .topicsChanged guidTopicMap =>
    !(c.isConnected && !guidTopicMap.isEmpty && newestTopic guidTopicMap = some c.connectedTopic)
  | .complete i =>
    match c.timeoutTimer.take i with
    | some ((_, success), _) => success
    | none => false
  | _ => false

namespace Exchange
variable {ι : Type} [DecidableEq ι]

def new (errorHandlers : Str → Option Nat) : Exchange ι :=
  { clients := fun _ => {}, sockets := fun _ => 0, inbox := fun _ => [], servers := fun a => .new (errorHandlers a) }

/-- The client does `op`; with its socket goes what waits in it. -/
def turn (x : Exchange ι) (i : ι) (op : ClientOp) : Exchange ι :=
  let renews := (x.clients i).renews op
  { x with
    clients := Function.update x.clients i ((x.clients i).step op)
    sockets := if renews then Function.update x.sockets i (x.sockets i + 1) else x.sockets
    inbox := if renews then Function.update x.inbox i [] else x.inbox }

/-- A request is sent as a whole or not at all. -/
def request (x : Exchange ι) (i : ι) (message : MessageVector) (replyHandler errorHandler : Option Nat) (timeout : ℚ)
    (sends : Bool) : Exchange ι :=
  let c := x.clients i
  let (ec, c') := c.request message replyHandler errorHandler timeout fun _ => if sends then none else some EAGAIN
  let x := { x with clients := Function.update x.clients i c' }
  match ec, c.socket with
  | none, some connection =>
    { x with envelopes := x.envelopes ++ [{
        client := i, socket := x.sockets i, address := connection.address
        request := c.nextRequest replyHandler errorHandler timeout, message }] }
  | _, _ => x

def receive (x : Exchange ι) (i : ι) (returns : Bool) : Exchange ι :=
  if (x.clients i).receiving then
    match x.inbox i with
    | [] => x
    | part :: inbox => { x with
        clients := Function.update x.clients i ((x.clients i).onReceive (.ok part) returns)
        inbox := Function.update x.inbox i inbox }
  else x

/-- The server at `address` has gone on to `server`; the reply it may have sent is on its way. -/
def advance (x : Exchange ι) (address : Str) (server : RepSocket Nat) : Exchange ι :=
  let x' := { x with servers := Function.update x.servers address server }
  match server.answered[(x.servers address).answered.length]? with
  | some ((k, _), reply) => { x' with envelopes := x.envelopes.modify k fun e => { e with stage := .reply reply } }
  | none => x'

def takeUp (x : Exchange ι) (k : Nat) : Exchange ι :=
  match x.envelopes[k]? with
  | some e =>
    if e.stage = .request ∧ (x.servers e.address).current = none then { x with
      servers := Function.update x.servers e.address ((x.servers e.address).takeUp k e.message)
      envelopes := x.envelopes.set k { e with stage := .serving } }
    else x
  | none => x

/-- A reply arrives, or its socket is gone. -/
def deliver (x : Exchange ι) (k : Nat) : Exchange ι :=
  match x.envelopes[k]? with
  | some e =>
    match e.stage with
    | .reply message => { x with
        envelopes := x.envelopes.set k { e with stage := .done }
        inbox :=
          if e.socket = x.sockets e.client then
            Function.update x.inbox e.client (x.inbox e.client ++ Socket.parts message)
          else x.inbox }
    | _ => x
  | none => x

def lose (x : Exchange ι) (k : Nat) : Exchange ι :=
  match x.envelopes[k]? with
  | some e => if e.stage = .serving then x else { x with envelopes := x.envelopes.set k { e with stage := .done } }
  | none => x

def step (x : Exchange ι) : ExchangeOp ι → Exchange ι
  | .request i message replyHandler errorHandler timeout sends =>
    x.request i message replyHandler errorHandler timeout sends
  | .topicsChanged i guidTopicMap => x.turn i (.topicsChanged guidTopicMap)
  | .expire i => x.turn i .expire
  | .complete i k => x.turn i (.complete k)
  | .receive i returns => x.receive i returns
  | .fail i ec => { x with clients := Function.update x.clients i ((x.clients i).onReceive (.error ec) true) }
  | .takeUp k => x.takeUp k
  | .serve address call => x.advance address ((x.servers address).serve call)
  | .reply address message => x.advance address ((x.servers address).reply message)
  | .failServer address ec call => x.advance address ((x.servers address).fail ec call)
  | .deliver k => x.deliver k
  | .lose k => x.lose k

/-- The handler of a reply throws; it may be empty. -/
def Throws (x : Exchange ι) : ExchangeOp ι → Prop
  | .receive i returns => (∃ part ∈ (x.inbox i).head?, part.more = false) ∧
    (returns = false ∨ (x.clients i).replyHandler = none)
  | _ => False

/-- A server has answered the request `r` of the client `i`. -/
def Answers (x : Exchange ι) (i : ι) (r : Request) (reply : MessageVector) : Prop :=
  ∃ address k e, ((k, e.message), reply) ∈ (x.servers address).answered ∧ x.envelopes[k]? = some e ∧ e.client = i ∧
    e.request = r

/-- A reply handler is given the reply to the request it is called for. -/
def Correlated (x : Exchange ι) : Prop :=
  ∀ i r handler message, .reply r handler message ∈ (x.clients i).callbacks →
    ∃ reply, x.Answers i r reply ∧ message = Socket.nonEmpty reply

end Exchange
end A17.Dispatch
