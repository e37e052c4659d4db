import A17.Lib.CString
import A17.Dispatch.Capnp
import A17.Dispatch.Socket

/-!
# What a reader reads of a message

`smart_capnp_reader.cpp`, `smart_message_reader.cpp` and `idFromSmartMessage`. A reader takes the id from
the first frame of a message and the structure from the second, without looking whether they are there.
What it finds depends on the way: `Socket::send` makes an empty vector into one empty frame, and
`Socket::onReceive` drops empty frames. `deliver_send` is the way there, `inBounds_iff` what the reader
then needs.
-/

namespace A17.Dispatch

/-- The outcome of code that reads memory it may not have. -/
inductive Reading (α : Type) where
  | value (a : α)
  | exception (what : Str)
  | outOfBounds
deriving DecidableEq

namespace Reading
variable {α β : Type}

def bind : Reading α → (α → Reading β) → Reading β
  | value a, f => f a
  | exception what, _ => exception what
  | outOfBounds, _ => outOfBounds

/-- `v[i]`. -/
def index (v : List α) (i : Nat) : Reading α :=
  match v[i]? with
  | some a => value a
  | none => outOfBounds

def InBounds (r : Reading α) : Prop := r ≠ outOfBounds

@[simp] theorem inBounds_value (a : α) : (value a).InBounds := by simp [InBounds]

@[simp] theorem inBounds_exception (what : Str) : (exception what : Reading α).InBounds := by simp [InBounds]

theorem inBounds_index {v : List α} {i : Nat} : (index v i).InBounds ↔ i < v.length := by
  rw [index, InBounds]
  split
  · next h => simp [(List.getElem?_eq_some_iff.1 h).1]
  · next h => simpa using h

theorem inBounds_bind {r : Reading α} {f : α → Reading β} :
    (r.bind f).InBounds ↔ r.InBounds ∧ ∀ a, r = value a → (f a).InBounds := by
  cases r <;> simp [bind, InBounds]

end Reading

/-- The first eight bytes of the first frame, on a little-endian machine. -/
def idFromSmartMessage (message : MessageVector) : Reading Nat :=
  (Reading.index message 0).bind fun frame =>
    if frame.length < 8 then .outOfBounds else .value (Bytes.toNat (frame.take 8))

/-- The members of a reader; the last is the library's, over the words of `buffer`. -/
structure SmartCapnpReader (α : Type) where
  id : Nat
  buffer : List Word
  reader : α

structure SmartMessageReader (α : Type) where
  messageVector : MessageVector
  reader : SmartCapnpReader α
  id : Nat

section
variable {α : Type} (flatArrayMessageReader : List Word → Except Str α)

def SmartCapnpReader.new (message : MessageVector) : Reading (SmartCapnpReader α) :=
  (idFromSmartMessage message).bind fun id =>
    (Reading.index message 1).bind fun frame =>
      let buffer := capnpBufferFromAzmqMessage frame
      match flatArrayMessageReader buffer with
      | .ok reader => .value { id, buffer, reader }
      | .error what => .exception what

def SmartMessageReader.new (message : MessageVector) : Reading (SmartMessageReader α) :=
  (SmartCapnpReader.new flatArrayMessageReader message).bind fun reader =>
    (idFromSmartMessage message).bind fun id => .value { messageVector := message, reader, id }

end

/-! ## The way of a message -/

namespace Socket
variable {ρ ε : Type}

/-- The messages a handler is called with as the parts come in. -/
def deliver (s : Socket ρ ε) : List Part → List MessageVector
  | [] => []
  | part :: parts =>
    match s.onReceive (.ok part) with
    | (s, .message _ message) => message :: (s.handled true).deliver parts
    | (s, _) => s.deliver parts

/-- What is left of a vector of frames. -/
def nonEmpty (message : MessageVector) : MessageVector := message.filter fun frame => 0 < frame.length

theorem deliver_sendParts (s : Socket ρ ε) (i : Nat) (frames : MessageVector) (h : frames ≠ []) :
    s.deliver (sendParts (fun _ => none) i frames).1 = [s.receivedMessage ++ nonEmpty frames] := by
  induction frames generalizing s i with
  | nil => exact absurd rfl h
  | cons frame frames ih =>
    have hkept : ∀ more, (Part.mk frame more).kept = nonEmpty [frame] := by
      intro more
      simp only [Part.kept, nonEmpty, List.filter_cons, List.filter_nil, decide_eq_true_eq]
    cases frames with
    | nil =>
      rw [show (sendParts (fun _ => none) i [frame]).1 = [⟨frame, false⟩] from rfl, deliver,
        onReceive_last _ rfl, hkept]
      rfl
    | cons frame' frames =>
      have hparts : (sendParts (fun _ => none) i (frame :: frame' :: frames)).1 =
          ⟨frame, true⟩ :: (sendParts (fun _ => none) (i + 1) (frame' :: frames)).1 := rfl
      rw [hparts, deliver, onReceive_more _ rfl, hkept]
      dsimp only
      rw [ih _ _ (by simp), List.append_assoc]
      congr 2
      rw [nonEmpty, nonEmpty, nonEmpty, ← List.filter_append]; rfl

/-- A message arrives as its frames that are not empty, behind what the socket still holds. -/
theorem deliver_send (s : Socket ρ ε) (message : MessageVector) :
    s.deliver (send message fun _ => none).1 = [s.receivedMessage ++ nonEmpty message] := by
  rw [send]
  split
  · next h =>
    rw [List.isEmpty_iff.1 h, deliver_sendParts _ _ _ (by simp)]
    rfl
  · next h => exact deliver_sendParts _ _ _ (by simpa using h)

end Socket

/-! ## Reading it -/

/-- `message` has a first frame that holds an id, and a second one. -/
def HasIdAndStruct (message : MessageVector) : Prop :=
  2 ≤ message.length ∧ ∃ frame ∈ message.head?, 8 ≤ frame.length

instance (message : MessageVector) : Decidable (HasIdAndStruct message) :=
  inferInstanceAs (Decidable (_ ∧ _))

theorem idFromSmartMessage_cons (frame : Frame) (frames : MessageVector) : idFromSmartMessage (frame :: frames) =
    if frame.length < 8 then .outOfBounds else .value (Bytes.toNat (frame.take 8)) := rfl

section
variable {α : Type} (flatArrayMessageReader : List Word → Except Str α)

/-- A reader needs an id and a structure; then it is constructed, or the library throws. -/
theorem SmartCapnpReader.inBounds_iff (message : MessageVector) :
    (SmartCapnpReader.new flatArrayMessageReader message).InBounds ↔ HasIdAndStruct message := by
  rw [SmartCapnpReader.new, Reading.inBounds_bind]
  cases message with
  | nil => simp [idFromSmartMessage, Reading.index, Reading.bind, Reading.InBounds, HasIdAndStruct]
  | cons frame frames =>
    rw [idFromSmartMessage_cons]
    split
    · next hlt => simp [Reading.InBounds, HasIdAndStruct, hlt]
    · next hle =>
      have hreader : ∀ id frame', (match flatArrayMessageReader (capnpBufferFromAzmqMessage frame') with
          | .ok reader => Reading.value (SmartCapnpReader.mk id (capnpBufferFromAzmqMessage frame') reader)
          | .error what => .exception what).InBounds := by
        intro id frame'
        split <;> simp
      simp only [Reading.value.injEq, forall_eq', Reading.inBounds_bind, Reading.inBounds_index, hreader]
      have hlen : 8 ≤ frame.length := Nat.le_of_not_lt hle
      simp [HasIdAndStruct, Reading.InBounds, hlen, Nat.lt_iff_add_one_le]

theorem inBounds_idFromSmartMessage {message : MessageVector} (h : HasIdAndStruct message) :
    (idFromSmartMessage message).InBounds := by
  obtain ⟨-, frame, hframe, hlen⟩ := h
  cases message with
  | nil => cases hframe
  | cons first frames =>
    cases hframe
    rw [idFromSmartMessage_cons, if_neg (Nat.not_lt.2 hlen)]
    exact Reading.inBounds_value _

theorem SmartMessageReader.inBounds_iff (message : MessageVector) :
    (SmartMessageReader.new flatArrayMessageReader message).InBounds ↔ HasIdAndStruct message := by
  rw [SmartMessageReader.new, Reading.inBounds_bind, SmartCapnpReader.inBounds_iff]
  refine ⟨And.left, fun h => ⟨h, fun reader _ => ?_⟩⟩
  rw [Reading.inBounds_bind]
  exact ⟨inBounds_idFromSmartMessage h, fun id _ => Reading.inBounds_value _⟩

/-- A message that a socket sends and a socket delivers is read within bounds, or an exception is raised,
exactly if what is left of it, behind what the receiver still holds, has an id and a structure. -/
theorem delivered_inBounds_iff {ρ ε : Type} (s : Socket ρ ε) (message : MessageVector) :
    (∀ v ∈ s.deliver (Socket.send message fun _ => none).1,
      (SmartCapnpReader.new flatArrayMessageReader v).InBounds ∧
        (SmartMessageReader.new flatArrayMessageReader v).InBounds) ↔
      HasIdAndStruct (s.receivedMessage ++ Socket.nonEmpty message) := by
  simp only [Socket.deliver_send, List.mem_singleton, forall_eq, SmartCapnpReader.inBounds_iff,
    SmartMessageReader.inBounds_iff, and_self]

end

/-- The blank reply to a request whose handler has thrown. -/
theorem blank_reply_out_of_bounds :
    ¬ ∀ (flatArrayMessageReader : List Word → Except Str Unit) (message : MessageVector),
      ∀ v ∈ (({} : Socket Unit Nat).receive () none).deliver (Socket.send message fun _ => none).1,
        (SmartCapnpReader.new flatArrayMessageReader v).InBounds ∧
          (SmartMessageReader.new flatArrayMessageReader v).InBounds := by
  intro h
  exact (h (fun _ => .ok ()) [] [] (by decide)).1 rfl

end A17.Dispatch
