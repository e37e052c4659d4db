import A17.Lib.Run
import A17.Dispatch.SmartReader

/-!
# The messages a handler sees

Parts wait in the socket until a `receive` takes them, one by one. `received_message_` is cleared at the end
of `onReceive`, after the handler: a handler that throws leaves its frames there, in front of those of the
next message (`Reception.received`). So every call sees one message if and only if every call but the last
one returns, or had nothing to leave (`received_nonEmpty_iff`).
-/

namespace A17.Dispatch

/-- A call of the message handler: what it was given, the frames that had arrived since the call before, and
whether it returned. -/
structure MessageCall where
  received : MessageVector
  message : MessageVector
  returns : Bool
deriving DecidableEq

/-- A socket, the parts in its queue, the frames of the message that is under way, and the handler calls,
newest first. -/
structure Reception (ρ ε : Type) where
  socket : Socket ρ ε := {}
  incoming : List Part := []
  message : MessageVector := []
  calls : List MessageCall := []

inductive SocketOp (ρ ε : Type) where
  | arrive (part : Part)
  | receive (handler : ρ) (errorHandler : Option ε)
  /-- A part is handed to `onReceive`; `returns` is whether a handler that is called returns. -/
  | complete (returns : Bool)

namespace Reception
variable {ρ ε : Type}

def complete (s : Reception ρ ε) (returns : Bool) : Reception ρ ε :=
  if s.socket.receives = 0 then s
  else
    match s.incoming with
    | [] => s
    | part :: incoming =>
      let message := s.message ++ [part.frame]
      match s.socket.onReceive (.ok part) with
      | (socket, .message (some _) received) =>
        { socket := socket.handled returns, incoming, message := [], calls := ⟨received, message, returns⟩ :: s.calls }
      | (socket, .message none _) => { s with socket := socket.handled false, incoming, message := [] }
      | (socket, _) => { s with socket, incoming, message }

def step (s : Reception ρ ε) : SocketOp ρ ε → Reception ρ ε
  | .arrive part => { s with incoming := s.incoming ++ [part] }
  | .receive handler errorHandler => { s with socket := s.socket.receive handler errorHandler }
  | .complete returns => s.complete returns

def run (s : Reception ρ ε) (ops : List (SocketOp ρ ε)) : Reception ρ ε := ops.foldl step s

end Reception

namespace MessageCall

/-- The frames that the newest call has left in `received_message_`. -/
def leftover : List MessageCall → MessageVector
  | [] => []
  | call :: _ => if call.returns then [] else call.received

/-- Each call gets what the call before has left, then its message. -/
def Chained : List MessageCall → Prop
  | [] => True
  | call :: calls => call.received = leftover calls ++ Socket.nonEmpty call.message ∧ Chained calls

/-- The call returned, or its message had no frame that could stay behind. -/
def LeavesNothing (call : MessageCall) : Prop := call.returns = true ∨ Socket.nonEmpty call.message = []

instance (call : MessageCall) : Decidable call.LeavesNothing :=
  inferInstanceAs (Decidable (call.returns = true ∨ Socket.nonEmpty call.message = []))

variable {calls : List MessageCall}

theorem leftover_eq_nil_iff {call : MessageCall} (h : call.received = Socket.nonEmpty call.message) :
    leftover (call :: calls) = [] ↔ call.LeavesNothing := by
  rw [leftover, LeavesNothing]
  cases call.returns <;> simp [h]

theorem Chained.received_iff (h : Chained calls) :
    (∀ call ∈ calls, call.received = Socket.nonEmpty call.message) ↔ ∀ call ∈ calls.tail, call.LeavesNothing := by
  induction calls with
  | nil => simp
  | cons call calls ih =>
    have hcall : call.received = Socket.nonEmpty call.message ↔ leftover calls = [] := by
      rw [h.1, List.append_left_eq_self]
    rw [List.forall_mem_cons, hcall, ih h.2, List.tail_cons]
    cases calls with
    | nil => simp [leftover]
    | cons prev calls =>
      rw [List.tail_cons, List.forall_mem_cons]
      refine and_congr_left fun hrest => leftover_eq_nil_iff ?_
      exact (ih h.2).2 hrest prev List.mem_cons_self

end MessageCall

namespace Reception
variable {ρ ε : Type} {s : Reception ρ ε}

structure Inv (s : Reception ρ ε) : Prop where
  armed : s.socket.receives ≠ 0 → s.socket.smartMessageHandler.isSome
  accumulated : s.socket.receivedMessage = MessageCall.leftover s.calls ++ Socket.nonEmpty s.message
  chained : MessageCall.Chained s.calls

theorem kept_append (s : Reception ρ ε) (part : Part) :
    Socket.nonEmpty s.message ++ part.kept = Socket.nonEmpty (s.message ++ [part.frame]) := by
  simp only [Socket.nonEmpty, List.filter_append, Part.kept, List.filter_cons, List.filter_nil, decide_eq_true_eq]

namespace Inv

theorem init : Inv ({} : Reception ρ ε) where
  armed h := absurd rfl h
  accumulated := rfl
  chained := trivial

theorem receive (h : s.Inv) (handler : ρ) (errorHandler : Option ε) :
    Inv { s with socket := s.socket.receive handler errorHandler } where
  armed _ := rfl
  accumulated := h.accumulated
  chained := h.chained

/-- A part of a message that goes on. -/
theorem more (h : s.Inv) {part : Part} {incoming : List Part} {receives : Nat}
    (hs : s.socket.smartMessageHandler.isSome) :
    Inv { s with
      socket := { s.socket with receivedMessage := s.socket.receivedMessage ++ part.kept, receives }
      incoming, message := s.message ++ [part.frame] } where
  armed _ := hs
  accumulated := by
    show s.socket.receivedMessage ++ part.kept = _
    rw [h.accumulated, List.append_assoc, kept_append]
  chained := h.chained

/-- The last part, which calls the handler. -/
theorem last (h : s.Inv) {part : Part} {incoming : List Part} {receives : Nat} {handler : ρ} {returns : Bool} :
    Inv {
      socket := Socket.handled { s.socket with
        receivedMessage := s.socket.receivedMessage ++ part.kept, smartMessageHandler := some handler
        receives } returns
      incoming, message := [],
      calls := ⟨s.socket.receivedMessage ++ part.kept, s.message ++ [part.frame], returns⟩ :: s.calls } where
  armed _ := by cases returns <;> rfl
  accumulated := by
    show (Socket.handled _ returns).receivedMessage = MessageCall.leftover _ ++ []
    cases returns <;> simp [Socket.handled, MessageCall.leftover]
  chained := by
    refine ⟨?_, h.chained⟩
    show s.socket.receivedMessage ++ part.kept = _
    rw [h.accumulated, List.append_assoc, kept_append]

theorem complete (h : s.Inv) (returns : Bool) : (s.complete returns).Inv := by
  rw [Reception.complete]
  split
  · exact h
  next hrec =>
  split
  · exact h
  next part incoming _ =>
  have hs := h.armed hrec
  cases hmore : part.more with
  | true =>
    rw [Socket.onReceive_more _ hmore]
    exact h.more hs
  | false =>
    obtain ⟨handler, hh⟩ := Option.isSome_iff_exists.1 hs
    rw [Socket.onReceive_last _ hmore, hh]
    exact h.last

theorem step (h : s.Inv) (op : SocketOp ρ ε) : (s.step op).Inv := by
  cases op with
  | arrive part => exact ⟨h.armed, h.accumulated, h.chained⟩
  | receive handler errorHandler => exact h.receive handler errorHandler
  | complete returns => exact h.complete returns

theorem run (ops : List (SocketOp ρ ε)) : (Reception.run {} ops).Inv := Run.invariant (fun _ op h => h.step op) init

end Inv

/-- Every handler call sees exactly one message just in case all calls but the newest leave nothing. -/
theorem received_nonEmpty_iff (ops : List (SocketOp ρ ε)) :
    (∀ call ∈ (run {} ops).calls, call.received = Socket.nonEmpty call.message) ↔
      ∀ call ∈ (run {} ops).calls.tail, call.LeavesNothing :=
  (Inv.run ops).chained.received_iff

/-- The handler throws on the first message, and the second comes with it. -/
theorem received_stale : ¬ ∀ (ops : List (SocketOp Unit Unit)), ∀ call ∈ (run {} ops).calls,
    call.received = Socket.nonEmpty call.message := by
  intro h
  have hstale := h [.receive () none, .arrive ⟨[1], false⟩, .complete false, .receive () none, .arrive ⟨[2], false⟩,
    .complete true] ⟨[[1], [2]], [[2]], true⟩ (by decide)
  exact absurd hstale (by decide)

end Reception
end A17.Dispatch
