import A17.Lib.Run
import A17.Dispatch.Parts
import A17.Dispatch.SocketRuns

/-!
# `Listener`

`listener.cpp`, as a `Subscriber` has it. `onMessage` calls the handler and receives again, so a handler that throws
and an error of the receive leave the listener deaf for good; nothing else does (`listening_iff`). Whatever happens, the
messages handled are those published, each once, in their order and without their empty frames
(`handled_eq_published`).
-/

namespace A17.Dispatch

/-- The socket of the listener, the parts in its queue, and the messages that were published and that the handler was
called with. -/
structure Listener where
  socket : Socket Unit Nat := {}
  errorHandler : Option Nat := none
  incoming : List Part := []
  published : List MessageVector := []
  handled : List MessageVector := []
deriving DecidableEq

inductive ListenerOp where
  | publish (message : MessageVector)
  /-- A part is received; `returns` is whether a handler that is called returns. -/
  | receive (returns : Bool)
  | fail (ec : ErrorCode)
deriving DecidableEq

namespace Listener

def new (errorHandler : Option Nat) : Listener :=
  { socket := Socket.receive {} () errorHandler, errorHandler }

/-- `onMessage`; a handler that throws is not followed by `receive`. -/
def onMessage (l : Listener) (message : MessageVector) (returns : Bool) : Listener :=
  let l := { l with handled := l.handled ++ [message] }
  if returns then { l with socket := l.socket.receive () l.errorHandler } else l

def onReceive (l : Listener) (result : Except ErrorCode Part) (returns : Bool) : Listener :=
  let (socket, upcall) := l.socket.onReceive result
  let l := { l with socket }
  match upcall with
  | .message (some ()) message =>
    let l := l.onMessage message returns
    { l with socket := l.socket.handled returns }
  | .message none _ | .error _ _ | .none => l

def step (l : Listener) : ListenerOp → Listener
  | .publish message => { l with
      published := l.published ++ [message], incoming := l.incoming ++ (Socket.send message fun _ => none).1 }
  | .receive returns =>
    if l.socket.receives = 0 then l
    else
      match l.incoming with
      | [] => l
      | part :: incoming => { l with incoming }.onReceive (.ok part) returns
  | .fail ec => if l.socket.receives = 0 then l else l.onReceive (.error ec) true

/-- A receive is outstanding. -/
def Listening (l : Listener) : Prop := l.socket.receives = 1

/-- No receive is outstanding. -/
def Deaf (l : Listener) : Prop := l.socket.receives = 0

/-- The handler is called and throws, or the receive fails. -/
def Silences (l : Listener) : ListenerOp → Prop
  | .receive returns => returns = false ∧ ∃ part ∈ l.incoming.head?, part.more = false
  | .fail _ => True
  | .publish _ => False

/-! ### What is handled -/

/-- The messages handled are the first ones published; `frames` have been taken of the next, and its other parts and
the messages after it wait. -/
structure Progress (published handled : List MessageVector) (frames : MessageVector) (incoming : List Part) : Prop where
  done : handled = (published.take handled.length).map Socket.nonEmpty
  ahead : (published.drop handled.length).flatMap Socket.parts = Socket.opened frames ++ incoming

namespace Progress
variable {published handled : List MessageVector} {frames : MessageVector} {part : Part} {incoming : List Part}

theorem length_le (h : Progress published handled frames incoming) : handled.length ≤ published.length := by
  have hlen := congrArg List.length h.done
  rw [List.length_map, List.length_take] at hlen
  omega

theorem publish (h : Progress published handled frames incoming) (message : MessageVector) :
    Progress (published ++ [message]) handled frames (incoming ++ Socket.parts message) := by
  constructor
  · rw [List.take_append_of_le_length h.length_le]
    exact h.done
  · rw [List.drop_append_of_le_length h.length_le, List.flatMap_append, h.ahead, List.append_assoc,
      List.flatMap_singleton]

theorem more (h : Progress published handled frames (part :: incoming)) (hmore : part.more = true) :
    Progress published handled (frames ++ [part.frame]) incoming := by
  refine ⟨h.done, ?_⟩
  have hpart : part = ⟨part.frame, true⟩ := by rw [← hmore]
  rw [h.ahead, Socket.opened_concat, List.append_assoc, List.singleton_append, ← hpart]

theorem last (h : Progress published handled frames (part :: incoming)) (hmore : part.more = false) :
    Progress published (handled ++ [Socket.nonEmpty (frames ++ [part.frame])]) [] incoming := by
  have hpart : part = ⟨part.frame, false⟩ := by rw [← hmore]
  have hqueue := h.ahead
  rw [hpart] at hqueue
  have hlen : (handled ++ [Socket.nonEmpty (frames ++ [part.frame])]).length = handled.length + 1 := by simp
  cases hdrop : published.drop handled.length with
  | nil =>
    rw [hdrop] at hqueue
    simp at hqueue
  | cons message rest =>
    rw [hdrop, List.flatMap_cons] at hqueue
    obtain ⟨hne, hrest⟩ := Socket.parts_split hqueue
    have hnext : published[handled.length]? = some message := by
      rw [← List.head?_drop, hdrop]
      rfl
    constructor
    · rw [hlen, List.take_add_one, hnext, List.map_append, ← h.done, hne]
      rfl
    · rw [hlen, ← List.tail_drop, hdrop]
      exact hrest

/-- Once the queue is empty everything is handled: every message ends with a part that no other follows. -/
theorem all (h : Progress published handled frames []) : handled = published.map Socket.nonEmpty := by
  have hdrop : published.drop handled.length = [] := by
    refine List.eq_nil_iff_forall_not_mem.2 fun message hmem => ?_
    obtain ⟨frames', last, heq, -⟩ := Socket.parts_eq message
    have hin : (⟨last, false⟩ : Part) ∈ (published.drop handled.length).flatMap Socket.parts :=
      List.mem_flatMap.2 ⟨message, hmem, by simp [heq]⟩
    rw [h.ahead, List.append_nil] at hin
    simp [Socket.opened] at hin
  have htake := h.done
  rwa [List.take_of_length_le (List.drop_eq_nil_iff.1 hdrop)] at htake

end Progress

variable {l : Listener} {frames : MessageVector}

structure Inv (frames : MessageVector) (l : Listener) : Prop where
  receives : l.socket.receives ≤ 1
  handler : l.socket.smartMessageHandler = some ()
  received : l.socket.receives = 1 → l.socket.receivedMessage = Socket.nonEmpty frames
  progress : Progress l.published l.handled frames l.incoming

theorem Inv.listening (h : l.Inv frames) (hrec : l.socket.receives ≠ 0) : l.Listening := by
  have := h.receives
  unfold Listening
  omega

theorem Inv.publish (h : l.Inv frames) (message : MessageVector) : (l.step (.publish message)).Inv frames :=
  ⟨h.receives, h.handler, h.received, h.progress.publish message⟩

theorem Inv.append_kept (h : l.Inv frames) (hrec : l.socket.receives ≠ 0) (part : Part) :
    l.socket.receivedMessage ++ part.kept = Socket.nonEmpty (frames ++ [part.frame]) := by
  rw [h.received (h.listening hrec)]
  exact Reception.kept_append ({ message := frames } : Reception Unit Nat) part

/-- A part of a message that goes on. -/
theorem Inv.more (h : l.Inv frames) (hrec : l.socket.receives ≠ 0) {part : Part} {incoming : List Part}
    (hmore : part.more = true) (hin : l.incoming = part :: incoming) (returns : Bool) :
    (l.step (.receive returns)).Inv (frames ++ [part.frame]) ∧ (l.step (.receive returns)).Listening := by
  have hone : l.socket.receives - 1 + 1 = 1 := by
    have := h.receives
    omega
  simp only [step, if_neg hrec, hin, onReceive, Socket.onReceive_more _ hmore, h.append_kept hrec, hone]
  exact ⟨⟨le_rfl, h.handler, fun _ => rfl, (hin ▸ h.progress).more hmore⟩, rfl⟩

/-- The last part of a message, with which the handler is called. -/
theorem Inv.last (h : l.Inv frames) (hrec : l.socket.receives ≠ 0) {part : Part} {incoming : List Part}
    (hmore : part.more = false) (hin : l.incoming = part :: incoming) (returns : Bool) :
    (l.step (.receive returns)).Inv [] ∧ (l.step (.receive returns)).socket.receives = if returns then 1 else 0 := by
  have hzero : l.socket.receives - 1 = 0 := by
    have := h.receives
    omega
  have hprogress := (hin ▸ h.progress).last hmore
  simp only [step, if_neg hrec, hin, onReceive, Socket.onReceive_last _ hmore, h.append_kept hrec, hzero, h.handler]
  cases returns with
  | true => exact ⟨⟨le_rfl, rfl, fun _ => rfl, hprogress⟩, rfl⟩
  | false => exact ⟨⟨Nat.zero_le _, rfl, fun h1 => absurd h1 Nat.zero_ne_one, hprogress⟩, rfl⟩

theorem Inv.fail (h : l.Inv frames) (ec : ErrorCode) :
    (l.step (.fail ec)).Inv frames ∧ (l.step (.fail ec)).socket.receives = 0 := by
  have hzero : l.socket.receives - 1 = 0 := by
    have := h.receives
    omega
  unfold step
  dsimp only
  split
  · next h0 => exact ⟨h, h0⟩
  · cases herr : l.socket.errorHandler with
    | none =>
      simp only [onReceive, Socket.onReceive, herr, hzero]
      exact ⟨⟨Nat.zero_le _, h.handler, fun h1 => absurd h1 Nat.zero_ne_one, h.progress⟩, trivial⟩
    | some handler =>
      simp only [onReceive, Socket.onReceive, herr, hzero]
      exact ⟨⟨Nat.zero_le _, h.handler, fun h1 => absurd h1 Nat.zero_ne_one, h.progress⟩, trivial⟩

/-- What a step does to a listener that listens. -/
theorem Inv.step (h : l.Inv frames) (op : ListenerOp) :
    (∃ frames, (l.step op).Inv frames) ∧ (l.Listening → ((l.step op).Listening ↔ ¬ l.Silences op)) := by
  cases op with
  | publish message => exact ⟨⟨frames, h.publish message⟩, fun hl => iff_of_true hl id⟩
  | fail ec =>
    obtain ⟨hinv, hzero⟩ := h.fail ec
    refine ⟨⟨frames, hinv⟩, fun _ => iff_of_false (fun hone => ?_) (not_not.2 trivial)⟩
    rw [Listening, hzero] at hone
    cases hone
  | receive returns =>
    rcases Nat.eq_zero_or_pos l.socket.receives with h0 | hpos
    · have heq : l.step (.receive returns) = l := by simp [Listener.step, h0]
      rw [heq]
      refine ⟨⟨frames, h⟩, fun hone => ?_⟩
      rw [Listening, h0] at hone
      cases hone
    have hrec := Nat.pos_iff_ne_zero.1 hpos
    cases hin : l.incoming with
    | nil =>
      have heq : l.step (.receive returns) = l := by simp [Listener.step, hin]
      rw [heq]
      exact ⟨⟨frames, h⟩, fun hl => iff_of_true hl (by simp [Silences, hin])⟩
    | cons part incoming =>
      cases hmore : part.more with
      | true =>
        obtain ⟨hinv, hl⟩ := h.more hrec hmore hin returns
        exact ⟨⟨_, hinv⟩, fun _ => iff_of_true hl (by simp [Silences, hin, hmore])⟩
      | false =>
        obtain ⟨hinv, hreceives⟩ := h.last hrec hmore hin returns
        refine ⟨⟨_, hinv⟩, fun _ => ?_⟩
        rw [Listening, hreceives]
        cases returns <;> simp [Silences, hin, hmore]

theorem inv_new (errorHandler : Option Nat) : (new errorHandler).Inv [] :=
  ⟨le_rfl, rfl, fun _ => rfl, rfl, rfl⟩

theorem exists_inv (errorHandler : Option Nat) (ops : List ListenerOp) :
    ∃ frames, (ops.foldl step (new errorHandler)).Inv frames :=
  Run.invariant (I := fun l => ∃ frames, Inv frames l) (fun _ op ⟨_, h⟩ => (h.step op).1) ⟨[], inv_new errorHandler⟩

/-- A receive that ends a message with a handler that throws, or fails, is not followed by another one. -/
theorem Inv.deaf (h : l.Inv frames) {op : ListenerOp} (hop : l.Silences op) : (l.step op).Deaf := by
  cases op with
  | publish message => exact absurd hop id
  | fail ec => exact (h.fail ec).2
  | receive returns =>
    obtain ⟨rfl, part, hpart, hmore⟩ := hop
    obtain ⟨incoming, hin⟩ : ∃ incoming, l.incoming = part :: incoming := by
      cases hin : l.incoming with
      | nil => simp [hin] at hpart
      | cons a incoming => exact ⟨incoming, by simpa [hin] using hpart⟩
    rcases Nat.eq_zero_or_pos l.socket.receives with h0 | hpos
    · rw [Listener.step, if_pos h0]
      exact h0
    · exact (h.last (Nat.pos_iff_ne_zero.1 hpos) hmore hin false).2

theorem Deaf.step (h : l.Deaf) (op : ListenerOp) : (l.step op).Deaf ∧ (l.step op).handled = l.handled := by
  have h0 : l.socket.receives = 0 := h
  cases op with
  | publish message => exact ⟨h, rfl⟩
  | receive returns =>
    rw [Listener.step, if_pos h0]
    exact ⟨h, rfl⟩
  | fail ec =>
    rw [Listener.step, if_pos h0]
    exact ⟨h, rfl⟩

theorem Deaf.run (h : l.Deaf) (ops : List ListenerOp) :
    (ops.foldl Listener.step l).Deaf ∧ (ops.foldl Listener.step l).handled = l.handled := by
  induction ops generalizing l with
  | nil => exact ⟨h, rfl⟩
  | cons op ops ih =>
    obtain ⟨hdeaf, hhandled⟩ := h.step op
    obtain ⟨hrun, hrun'⟩ := ih hdeaf
    exact ⟨hrun, hrun'.trans hhandled⟩

/-- The listener goes on listening unless a handler throws or a receive fails. After that it never listens again, and
no message is handled any more. -/
theorem listening_iff (errorHandler : Option Nat) (ops : List ListenerOp) :
    (Run.States step Listening (new errorHandler) ops ↔
      Run.Steps step (fun l op => ¬ l.Silences op) (new errorHandler) ops) ∧
    ∀ pre op post, ops = pre ++ op :: post → (pre.foldl step (new errorHandler)).Silences op →
      (ops.foldl step (new errorHandler)).Deaf ∧
        (ops.foldl step (new errorHandler)).handled = ((pre ++ [op]).foldl step (new errorHandler)).handled := by
  constructor
  · refine Run.states_iff_steps (I := fun l => l.Listening ∧ ∃ frames, Inv frames l) (fun _ h => h.1) ?_ ?_
      ⟨rfl, [], inv_new errorHandler⟩
    · rintro l op ⟨hl, frames, h⟩ hop
      exact ⟨((h.step op).2 hl).2 hop, (h.step op).1⟩
    · rintro l op ⟨hl, frames, h⟩ hop hl'
      exact hop (((h.step op).2 hl).1 hl')
  · rintro pre op post rfl hop
    obtain ⟨frames, h⟩ := exists_inv errorHandler pre
    rw [List.foldl_append, List.foldl_cons, List.foldl_concat]
    exact (h.deaf hop).run post

/-- The handler is called with the messages that were published, in their order and each of them once: with some of the
first, and with all of them once the queue is empty. -/
theorem handled_eq_published (errorHandler : Option Nat) (ops : List ListenerOp) :
    let l := ops.foldl step (new errorHandler)
    l.handled = (l.published.take l.handled.length).map Socket.nonEmpty ∧
      (l.incoming = [] → l.handled = l.published.map Socket.nonEmpty) := by
  obtain ⟨frames, h⟩ := exists_inv errorHandler ops
  exact ⟨h.progress.done, fun hnil => (hnil ▸ h.progress).all⟩

end Listener
end A17.Dispatch
