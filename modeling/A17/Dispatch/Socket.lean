import Mathlib.Data.List.Basic

/-!
# `Socket`

`socket.cpp`: a message goes out part by part, and the parts that come in are collected until the last
one is there. A handler may receive again, send or throw, so `onReceive` stops at the call it makes
(`Upcall`) and `handled` is the rest of it. What a handler is, is up to the owner of the socket.
-/

namespace A17.Dispatch

abbrev Frame := List UInt8

abbrev MessageVector := List Frame

inductive ErrorCode where
  | connectionAlreadyInProgress | notConnected | timedOut
  | zmq (errno : Nat)
deriving DecidableEq

/-- One frame on the wire, and whether it announces another one. -/
structure Part where
  frame : Frame
  more : Bool
deriving DecidableEq

structure Socket (ρ ε : Type) where
  receivedMessage : MessageVector := []
  smartMessageHandler : Option ρ := none
  errorHandler : Option ε := none
  /-- How many `async_receive`s are outstanding. -/
  receives : Nat := 0
deriving DecidableEq

inductive Upcall (ρ ε : Type) where
  | none
  | error (handler : ε) (ec : ErrorCode)
  /-- An empty handler throws `std::bad_function_call`. -/
  | message (handler : Option ρ) (message : MessageVector)
deriving DecidableEq

namespace Socket
variable {ρ ε : Type}

def receive (s : Socket ρ ε) (handler : ρ) (errorHandler : Option ε) : Socket ρ ε :=
  { s with smartMessageHandler := some handler, errorHandler, receives := s.receives + 1 }

def onReceive (s : Socket ρ ε) (result : Except ErrorCode Part) : Socket ρ ε × Upcall ρ ε :=
  let s := { s with receives := s.receives - 1 }
  match result with
  | .error ec =>
    match s.errorHandler with
    | some handler => (s, .error handler ec)
    | none => (s, .none)
  | .ok msg =>
    let s := if 0 < msg.frame.length then { s with receivedMessage := s.receivedMessage ++ [msg.frame] } else s
    if msg.more then ({ s with receives := s.receives + 1 }, .none)
    else (s, .message s.smartMessageHandler s.receivedMessage)

/-- The end of `onReceive`, which a handler that throws does not get to. -/
def handled (s : Socket ρ ε) (returns : Bool) : Socket ρ ε :=
  if returns then { s with receivedMessage := [] } else s

/-- `zmqSend i` is the outcome of the `i`-th call of `azmq::socket::send`. -/
def sendParts (zmqSend : Nat → Option ErrorCode) : Nat → MessageVector → List Part × Option ErrorCode
  | _, [] => ([], none)
  | i, frame :: frames =>
    match zmqSend i with
    | some ec => ([], some ec)
    | none =>
      let (parts, ec) := sendParts zmqSend (i + 1) frames
      -- `ZMQ_SNDMORE` on all but the last
      (⟨frame, !frames.isEmpty⟩ :: parts, ec)

/-- The parts that go out before the first error, and that error. -/
def send (message : MessageVector) (zmqSend : Nat → Option ErrorCode) : List Part × Option ErrorCode :=
  if message.isEmpty then sendParts zmqSend 0 [[]] else sendParts zmqSend 0 message

end Socket

/-- What `onReceive` keeps of a part: nothing of an empty one. -/
def Part.kept (msg : Part) : MessageVector := if 0 < msg.frame.length then [msg.frame] else []

namespace Socket
variable {ρ ε : Type} (s : Socket ρ ε)

theorem onReceive_more {msg : Part} (h : msg.more = true) : s.onReceive (.ok msg) =
    ({ s with receivedMessage := s.receivedMessage ++ msg.kept, receives := s.receives - 1 + 1 }, .none) := by
  simp only [onReceive, h, Part.kept, if_true]
  split <;> simp

theorem onReceive_last {msg : Part} (h : msg.more = false) : s.onReceive (.ok msg) =
    ({ s with receivedMessage := s.receivedMessage ++ msg.kept, receives := s.receives - 1 },
      .message s.smartMessageHandler (s.receivedMessage ++ msg.kept)) := by
  simp only [onReceive, h, Part.kept, Bool.false_eq_true, if_false]
  split <;> simp

@[simp] theorem handled_receives (returns : Bool) : (s.handled returns).receives = s.receives := by
  cases returns <;> rfl

theorem sendParts_ok (i : Nat) (frames : MessageVector) : (sendParts (fun _ => none) i frames).2 = none := by
  induction frames generalizing i with
  | nil => rfl
  | cons frame frames ih => exact ih (i + 1)

theorem send_ok (message : MessageVector) : (send message fun _ => none).2 = none := by
  rw [send]
  split <;> exact sendParts_ok ..

/-- There is always a part to send, so an error shows. -/
theorem send_error (message : MessageVector) (ec : ErrorCode) : send message (fun _ => some ec) = ([], some ec) := by
  cases message <;> rfl

end Socket
end A17.Dispatch
