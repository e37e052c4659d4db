import Mathlib.Data.List.Basic
import Mathlib.Data.List.OfFn

/-!
# `GenericUdp`

`udp_socket.cpp`: vectors of doubles over UDP. A double is its eight bytes. `sent` are the datagrams handed to the
socket, `handled` the vectors `handler_` was called with. `send` describes its buffer by the number of doubles where
the number of bytes is meant, so one byte for each double goes out and the other side makes one double of eight of
them (`handled_arrive_send`): no vector arrives as it was sent.
-/

namespace A17.Utils

/-- Eight bytes, whatever they mean. -/
abbrev Double := Fin 8 → UInt8

structure GenericUdp where
  /-- The memory from `receiveBuffer_` on, byte by byte. -/
  receiveBuffer : Nat → UInt8 := fun _ => 0
  firstMessage : Bool := false
  /-- An `async_receive_from` is outstanding. -/
  receiving : Bool := true
  /-- A wait on `recoveryTimer_` is outstanding. -/
  recovering : Bool := false
  sent : List (List UInt8) := []
  handled : List (List Double) := []

namespace GenericUdp

def receive (u : GenericUdp) : GenericUdp := { u with receiving := true }

/-- The `i`-th double of `receiveBuffer_`. -/
def received (u : GenericUdp) (i : Nat) : Double := fun j => u.receiveBuffer (8 * i + j)

def parser (u : GenericUdp) (bytes : Nat) : GenericUdp :=
  if bytes < 8 then u else { u with handled := u.handled ++ [(List.range (bytes / 8)).map u.received] }

/-- `onReceive`; `none` is an error. -/
def onReceive (u : GenericUdp) (result : Option Nat) : GenericUdp :=
  let u := { u with firstMessage := true }
  match result with
  | some bytes => (u.parser bytes).receive
  | none => { u with recovering := true }

/-- The data of a vector, as it lies in memory. -/
def bytes (v : List Double) : List UInt8 := v.flatMap List.ofFn

def send (u : GenericUdp) (v : List Double) : GenericUdp :=
  -- `boost::asio::buffer(v.data(), v.size())`
  let buf := (bytes v).take v.length
  if u.firstMessage then { u with sent := u.sent ++ [buf] } else u

/-- A datagram arrives: the outstanding `async_receive_from` takes what fits into 1024 bytes. -/
def arrive (u : GenericUdp) (datagram : List UInt8) : GenericUdp :=
  if u.receiving then
    let taken := datagram.take 1024
    { u with
      receiveBuffer := fun addr => taken[addr]?.getD (u.receiveBuffer addr)
      receiving := false }.onReceive (some taken.length)
  else u

/-- What one side sends with `v` makes the handler of the other be called once, with `v`. -/
def RoundTrips (sender receiver : GenericUdp) (v : List Double) : Prop :=
  ∃ datagram, (sender.send v).sent = sender.sent ++ [datagram] ∧
    (receiver.arrive datagram).handled = receiver.handled ++ [v]

/-! ### What arrives -/

theorem length_bytes (v : List Double) : (bytes v).length = 8 * v.length := by
  rw [bytes, List.length_flatMap]
  simp [Nat.mul_comm]

theorem getElem?_bytes (v : List Double) (i : Nat) (j : Fin 8) : (bytes v)[8 * i + j]? = v[i]?.map (· j) := by
  induction v generalizing i with
  | nil => rfl
  | cons d v ih =>
    rw [bytes, List.flatMap_cons]
    cases i with
    | zero =>
      rw [List.getElem?_append_left (by simp), Nat.mul_zero, Nat.zero_add, List.getElem?_ofFn, dif_pos j.isLt]
      rfl
    | succ i =>
      rw [List.getElem?_append_right (by simp; omega), List.length_ofFn,
        show 8 * (i + 1) + (j : Nat) - 8 = 8 * i + j by omega]
      exact ih i

theorem send_of_connected {u : GenericUdp} (h : u.firstMessage = true) (v : List Double) :
    (u.send v).sent = u.sent ++ [(bytes v).take v.length] := by
  rw [send, if_pos h]

theorem parser_handled (u : GenericUdp) (n : Nat) : (u.parser n).handled =
    if n < 8 then u.handled else u.handled ++ [(List.range (n / 8)).map u.received] := by
  rw [parser]
  split <;> rfl

/-- Of `n` doubles the first `n / 8` arrive, if any. -/
theorem handled_arrive_send {receiver : GenericUdp} (hr : receiver.receiving = true) {v : List Double}
    (hlen : v.length ≤ 1024) : (receiver.arrive ((bytes v).take v.length)).handled =
      if v.length < 8 then receiver.handled else receiver.handled ++ [v.take (v.length / 8)] := by
  have htaken : ((bytes v).take v.length).take 1024 = (bytes v).take v.length := by
    rw [List.take_take, Nat.min_eq_right hlen]
  have hcount : ((bytes v).take v.length).length = v.length := by
    rw [List.length_take, length_bytes]
    omega
  rw [arrive, if_pos hr, onReceive]
  dsimp only
  rw [receive, parser_handled, htaken, hcount]
  split
  · rfl
  · congr 2
    refine List.ext_getElem (by simp; omega) fun i hi hi' => ?_
    have hvi : i < v.length := by
      rw [List.length_take] at hi'
      omega
    rw [List.getElem_map, List.getElem_range, List.getElem_take]
    funext j
    have hlt : 8 * i + (j : Nat) < v.length := by
      rw [List.length_take] at hi'
      omega
    have hbyte : ((bytes v).take v.length)[8 * i + (j : Nat)]? = some (v[i] j) := by
      rw [List.getElem?_take_of_lt hlt, getElem?_bytes, List.getElem?_eq_getElem hvi, Option.map_some]
    rw [received]
    dsimp only
    rw [hbyte, Option.getD_some]

/-- No vector of 1 to 128 doubles arrives as it was sent. -/
theorem not_roundTrips {sender receiver : GenericUdp} (hs : sender.firstMessage = true)
    (hr : receiver.receiving = true) {v : List Double} (hpos : 1 ≤ v.length) (hlen : v.length ≤ 128) :
    ¬ RoundTrips sender receiver v := by
  rintro ⟨datagram, hsent, hhandled⟩
  rw [send_of_connected hs] at hsent
  obtain rfl : (bytes v).take v.length = datagram := by simpa using hsent
  rw [handled_arrive_send hr (by omega)] at hhandled
  split at hhandled
  · simp at hhandled
  · have hv : v.take (v.length / 8) = v := by simpa using hhandled
    have := congrArg List.length hv
    rw [List.length_take] at this
    omega

theorem not_roundTrips_one : ¬ RoundTrips { firstMessage := true } {} [fun _ => 1] :=
  not_roundTrips rfl rfl (by decide) (by decide)

/-- Eight doubles are sent as one, made of the first bytes of the first. -/
theorem eight_doubles_lost :
    ¬ RoundTrips { firstMessage := true } {} (List.replicate 8 fun _ => 1) := by
  rintro ⟨datagram, hsent, hhandled⟩
  obtain rfl : List.replicate 8 1 = datagram := by
    have hdatagram : [List.replicate 8 (1 : UInt8)] = [datagram] := hsent
    simpa using hdatagram
  have hlen := congrArg (fun l => l.map List.length) hhandled
  revert hlen
  decide

end GenericUdp
end A17.Utils
