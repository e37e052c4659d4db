import Mathlib.Data.List.Count
import A17.Lib.Run
import A17.Dispatch.Py.TopicMap

/-!
# `Client` of `dispatch.py`

A client keeps the list of the addresses in the last topic map. It connects what is in the new map and not in
the list, and disconnects what is in the list and not in the new map; an address that several guids advertise
is there several times. `disconnect` of the ZeroMQ socket ends all connections to the address and raises if
there is none. What the socket is asked to do is kept in `calls`, what it refused in `refused`.
-/

namespace A17.Dispatch.Py

/-- The dict that an observer is called with, from guids to topics. -/
structure TopicDict where
  items : List (Str × Topic)
  nodup : (items.map Prod.fst).Nodup

def TopicDict.values (m : TopicDict) : List Topic := m.items.map Prod.snd

inductive ZCall where
  | connect (address : Str)
  | disconnect (address : Str)
deriving DecidableEq

structure ZSocket where
  endpoints : List Str := []
  calls : List ZCall := []
  refused : List Str := []
deriving DecidableEq

namespace ZSocket

def connect (z : ZSocket) (address : Str) : ZSocket :=
  { z with endpoints := z.endpoints ++ [address], calls := z.calls ++ [.connect address] }

/-- `disconnect`, and whether it returns. -/
def disconnect (z : ZSocket) (address : Str) : Bool × ZSocket :=
  let z := { z with calls := z.calls ++ [ZCall.disconnect address] }
  if address ∈ z.endpoints then (true, { z with endpoints := z.endpoints.filter (· ≠ address) })
  else (false, { z with refused := z.refused ++ [address] })

end ZSocket

/-- A handler is a number. `scheduled` are the calls of `on_connect` put on the io loop, `invoked` those of
`on_disconnect`. -/
structure Client where
  zsocket : ZSocket := {}
  addresses : List Str := []
  onConnect : Option Nat := none
  onDisconnect : Option Nat := none
  scheduled : List Nat := []
  invoked : List (Nat × Str) := []

namespace Client

def connect (c : Client) (address : Str) : Client :=
  { c with zsocket := c.zsocket.connect address, scheduled := c.scheduled ++ c.onConnect.toList }

def disconnect (c : Client) (address : Str) : Bool × Client :=
  match c.zsocket.disconnect address with
  | (false, zsocket) => (false, { c with zsocket })
  | (true, zsocket) =>
    (true, { c with zsocket, invoked := c.invoked ++ c.onDisconnect.toList.map fun handler => (handler, address) })

def connectNew (c : Client) (newAddresses : List Str) : Client :=
  newAddresses.foldl (fun c newAddress => if newAddress ∈ c.addresses then c else c.connect newAddress) c

/-- The second loop, up to the first exception. -/
def disconnectGone (newAddresses : List Str) : List Str → Client → Bool × Client
  | [], c => (true, c)
  | address :: addresses, c =>
    if address ∈ newAddresses then disconnectGone newAddresses addresses c
    else
      match c.disconnect address with
      | (false, c) => (false, c)
      | (true, c) => disconnectGone newAddresses addresses c

/-- `topic_map_updated`, and whether it returns. -/
def topicMapUpdated (c : Client) (topicMap : TopicDict) : Bool × Client :=
  let newAddresses := topicMap.values.map Topic.address
  let c := c.connectNew newAddresses
  match disconnectGone newAddresses c.addresses c with
  | (false, c) => (false, c)
  | (true, c) => (true, { c with addresses := newAddresses })

/-! ## The two loops -/

def connects (c : Client) (a : Str) : Nat := c.zsocket.calls.count (.connect a)
def disconnects (c : Client) (a : Str) : Nat := c.zsocket.calls.count (.disconnect a)

variable {c : Client} {new addresses : List Str}

/-- What the first loop does: it connects an address as often as it finds it. -/
structure ConnectedNew (c : Client) (new : List Str) (c' : Client) : Prop where
  addresses : c'.addresses = c.addresses
  refused : c'.zsocket.refused = c.zsocket.refused
  endpoints : ∀ a, a ∈ c'.zsocket.endpoints ↔ a ∈ c.zsocket.endpoints ∨ a ∈ new ∧ a ∉ c.addresses
  connects : ∀ a, c'.connects a = c.connects a + if a ∈ c.addresses then 0 else new.count a
  disconnects : ∀ a, c'.disconnects a = c.disconnects a

theorem connect_addresses (c : Client) (a : Str) : (c.connect a).addresses = c.addresses := rfl

theorem connectNew_connectedNew (c : Client) (new : List Str) : ConnectedNew c new (c.connectNew new) := by
  induction new generalizing c with
  | nil => exact ⟨rfl, rfl, by simp [connectNew], by simp [connectNew], fun _ => rfl⟩
  | cons address new ih =>
    rw [connectNew, List.foldl_cons]
    split
    · next h =>
      have hrest := ih c
      refine ⟨hrest.addresses, hrest.refused, fun a => ?_, fun a => ?_, hrest.disconnects⟩
      · rw [← connectNew, hrest.endpoints]
        by_cases ha : a = address <;> simp [ha, h]
      · rw [← connectNew, hrest.connects]
        by_cases ha : a = address
        · simp [ha, h]
        · simp [Ne.symm ha]
    · next h =>
      have hrest := ih (c.connect address)
      refine ⟨hrest.addresses, hrest.refused, fun a => ?_, fun a => ?_, fun a => ?_⟩
      · rw [← connectNew, hrest.endpoints]
        by_cases ha : a = address <;> simp [connect, ZSocket.connect, ha, h]
      · rw [← connectNew, hrest.connects, connect_addresses]
        by_cases ha : a = address
        · simp [connect, ZSocket.connect, connects, ha, h, Nat.add_assoc, Nat.add_comm]
        · simp [connect, ZSocket.connect, connects, Ne.symm ha]
      · rw [← connectNew, hrest.disconnects]
        simp [connect, ZSocket.connect, disconnects]

/-- The addresses that the second loop disconnects. -/
def gone (new addresses : List Str) : List Str := addresses.filter (· ∉ new)

/-- What the second loop does if nothing is raised: each disconnects once, and there is nothing twice. -/
structure DisconnectedGone (c : Client) (gone : List Str) (c' : Client) : Prop where
  nodup : gone.Nodup
  connected : ∀ a ∈ gone, a ∈ c.zsocket.endpoints
  refused : c'.zsocket.refused = c.zsocket.refused
  endpoints : ∀ a, a ∈ c'.zsocket.endpoints ↔ a ∈ c.zsocket.endpoints ∧ a ∉ gone
  disconnects : ∀ a, c'.disconnects a = c.disconnects a + gone.count a

theorem gone_cons_of_mem {address : Str} (h : address ∈ new) :
    gone new (address :: addresses) = gone new addresses := by
  simp [gone, h]

theorem gone_cons_of_notMem {address : Str} (h : address ∉ new) :
    gone new (address :: addresses) = address :: gone new addresses := by
  simp [gone, h]

/-! ### One round of the second loop -/

theorem disconnectGone_of_mem {address : Str} (h : address ∈ new) (addresses : List Str) (c : Client) :
    disconnectGone new (address :: addresses) c = disconnectGone new addresses c := by
  rw [disconnectGone, if_pos h]

theorem disconnectGone_of_connected {address : Str} (hnew : address ∉ new) (h : address ∈ c.zsocket.endpoints)
    (addresses : List Str) : ∃ c', disconnectGone new (address :: addresses) c = disconnectGone new addresses c' ∧
      c'.zsocket = { c.zsocket with
        endpoints := c.zsocket.endpoints.filter (· ≠ address)
        calls := c.zsocket.calls ++ [.disconnect address] } := by
  rw [disconnectGone, if_neg hnew, disconnect, ZSocket.disconnect]
  dsimp only
  rw [if_pos h]
  exact ⟨_, rfl, rfl⟩

theorem disconnectGone_of_refused {address : Str} (hnew : address ∉ new) (h : address ∉ c.zsocket.endpoints)
    (addresses : List Str) : ∃ c', disconnectGone new (address :: addresses) c = (false, c') ∧
      c'.zsocket = { c.zsocket with
        calls := c.zsocket.calls ++ [.disconnect address], refused := c.zsocket.refused ++ [address] } := by
  rw [disconnectGone, if_neg hnew, disconnect, ZSocket.disconnect]
  dsimp only
  rw [if_neg h]
  exact ⟨_, rfl, rfl⟩

theorem disconnectGone_eq_true {addresses : List Str} (h : (disconnectGone new addresses c).1 = true) :
    DisconnectedGone c (gone new addresses) (disconnectGone new addresses c).2 := by
  induction addresses generalizing c with
  | nil => exact ⟨by simp [gone], by simp [gone], rfl, by simp [gone, disconnectGone], fun _ => rfl⟩
  | cons address addresses ih =>
    by_cases hnew : address ∈ new
    · rw [disconnectGone_of_mem hnew] at h ⊢
      rw [gone_cons_of_mem hnew]
      exact ih h
    rw [gone_cons_of_notMem hnew]
    by_cases hmem : address ∈ c.zsocket.endpoints
    · obtain ⟨c', heq, hz⟩ := disconnectGone_of_connected hnew hmem addresses
      rw [heq] at h ⊢
      have hrest := ih h
      have hnotMem : address ∉ gone new addresses := by
        intro hin
        have := hrest.connected address hin
        simp [hz] at this
      refine ⟨List.nodup_cons.2 ⟨hnotMem, hrest.nodup⟩, ?_, hrest.refused.trans (by rw [hz]), ?_, ?_⟩
      · intro a ha
        rcases List.mem_cons.1 ha with rfl | ha
        · exact hmem
        · have := hrest.connected a ha
          rw [hz] at this
          exact (List.mem_filter.1 this).1
      · intro a
        rw [hrest.endpoints, hz, List.mem_filter, List.mem_cons, decide_eq_true_eq, not_or, and_assoc]
      · intro a
        rw [hrest.disconnects, disconnects, hz]
        by_cases ha : a = address
        · simp only [ha, disconnects, List.count_append, List.count_cons_self, List.count_nil]
          omega
        · simp [disconnects, Ne.symm ha]
    · obtain ⟨c', heq, -⟩ := disconnectGone_of_refused hnew hmem addresses
      rw [heq] at h
      cases h

/-- What the second loop leaves alone, however it ends. -/
structure Kept (new : List Str) (c c' : Client) : Prop where
  connects : ∀ a, c'.connects a = c.connects a
  disconnects : ∀ a ∈ new, c'.disconnects a = c.disconnects a

theorem Kept.trans {c₁ c₂ : Client} (h₁ : Kept new c c₁) (h₂ : Kept new c₁ c₂) : Kept new c c₂ :=
  ⟨fun a => (h₂.connects a).trans (h₁.connects a), fun a ha => (h₂.disconnects a ha).trans (h₁.disconnects a ha)⟩

theorem kept_of_calls {c' : Client} {address : Str} (h : address ∉ new)
    (hcalls : c'.zsocket.calls = c.zsocket.calls ++ [.disconnect address]) : Kept new c c' := by
  refine ⟨fun a => by simp [connects, hcalls], fun a ha => ?_⟩
  have hne : address ≠ a := fun he => h (he ▸ ha)
  simp [disconnects, hcalls, hne]

theorem disconnectGone_kept (new addresses : List Str) (c : Client) :
    Kept new c (disconnectGone new addresses c).2 := by
  induction addresses generalizing c with
  | nil => exact ⟨fun _ => rfl, fun _ _ => rfl⟩
  | cons address addresses ih =>
    by_cases hnew : address ∈ new
    · rw [disconnectGone_of_mem hnew]
      exact ih c
    by_cases hmem : address ∈ c.zsocket.endpoints
    · obtain ⟨c', heq, hz⟩ := disconnectGone_of_connected hnew hmem addresses
      rw [heq]
      exact (kept_of_calls hnew (by rw [hz])).trans (ih c')
    · obtain ⟨c', heq, hz⟩ := disconnectGone_of_refused hnew hmem addresses
      rw [heq]
      exact kept_of_calls hnew (by rw [hz])

theorem disconnectGone_eq_false {addresses : List Str} (h : (disconnectGone new addresses c).1 = false) :
    (disconnectGone new addresses c).2.zsocket.refused ≠ [] := by
  induction addresses generalizing c with
  | nil => cases h
  | cons address addresses ih =>
    by_cases hnew : address ∈ new
    · rw [disconnectGone_of_mem hnew] at h ⊢
      exact ih h
    by_cases hmem : address ∈ c.zsocket.endpoints
    · obtain ⟨c', heq, -⟩ := disconnectGone_of_connected hnew hmem addresses
      rw [heq] at h ⊢
      exact ih h
    · obtain ⟨c', heq, hz⟩ := disconnectGone_of_refused hnew hmem addresses
      rw [heq]
      simp [hz]

/-- Nothing is raised if no address is there twice and all are connected. -/
theorem disconnectGone_of_nodup {addresses : List Str} (hnd : (gone new addresses).Nodup)
    (hmem : ∀ a ∈ gone new addresses, a ∈ c.zsocket.endpoints) : (disconnectGone new addresses c).1 = true := by
  induction addresses generalizing c with
  | nil => rfl
  | cons address addresses ih =>
    by_cases hnew : address ∈ new
    · rw [gone_cons_of_mem hnew] at hnd hmem
      rw [disconnectGone_of_mem hnew]
      exact ih hnd hmem
    rw [gone_cons_of_notMem hnew, List.nodup_cons] at hnd
    rw [gone_cons_of_notMem hnew, List.forall_mem_cons] at hmem
    obtain ⟨c', heq, hz⟩ := disconnectGone_of_connected hnew hmem.1 addresses
    rw [heq]
    refine ih hnd.2 fun a ha => ?_
    rw [hz, List.mem_filter, decide_eq_true_eq]
    exact ⟨hmem.2 a ha, fun he => hnd.1 (he ▸ ha)⟩

theorem topicMapUpdated_zsocket (c : Client) (topicMap : TopicDict) :
    (c.topicMapUpdated topicMap).2.zsocket = (disconnectGone (topicMap.values.map Topic.address) c.addresses
      (c.connectNew (topicMap.values.map Topic.address))).2.zsocket := by
  rw [topicMapUpdated, (connectNew_connectedNew c _).addresses]
  split
  · next heq => rw [heq]
  · next heq => rw [heq]

theorem topicMapUpdated_addresses (c : Client) (topicMap : TopicDict)
    (h : (disconnectGone (topicMap.values.map Topic.address) c.addresses
      (c.connectNew (topicMap.values.map Topic.address))).1 = true) :
    (c.topicMapUpdated topicMap).2.addresses = topicMap.values.map Topic.address := by
  rw [topicMapUpdated, (connectNew_connectedNew c _).addresses]
  split
  · next heq => rw [heq] at h; cases h
  · rfl

/-- How often an address is disconnected, when it is gone. -/
theorem count_gone (a : Str) (new addresses : List Str) :
    (gone new addresses).count a = if a ∈ new then 0 else addresses.count a := by
  split
  · next ha => exact List.count_eq_zero_of_not_mem (by simp [gone, ha])
  · next ha => exact List.count_filter (by simpa using ha)

theorem nodup_gone_iff (new addresses : List Str) :
    (gone new addresses).Nodup ↔ ∀ a ∉ new, addresses.count a ≤ 1 := by
  rw [List.nodup_iff_count_le_one]
  refine forall_congr' fun a => ?_
  rw [count_gone]
  by_cases ha : a ∈ new <;> simp [ha]

end Client

/-! ## Runs of notifications -/

/-- A client, and the addresses in the last topic map it was notified of. -/
structure Notified where
  client : Client := {}
  latest : List Str := []

namespace Notified

def step (s : Notified) (topicMap : TopicDict) : Notified :=
  { client := (s.client.topicMapUpdated topicMap).2, latest := topicMap.values.map Topic.address }

/-- Each address is connected once if it is in the last map, and no `disconnect` was refused. -/
structure Balanced (s : Notified) : Prop where
  balance : ∀ a, (s.client.connects a : Int) - s.client.disconnects a = if a ∈ s.latest then 1 else 0
  refused : s.client.zsocket.refused = []

/-- No address that the client has to connect, or to disconnect, is there twice. -/
def NoDoubles (s : Notified) (topicMap : TopicDict) : Prop :=
  (∀ a ∉ s.client.addresses, (topicMap.values.map Topic.address).count a ≤ 1) ∧
    ∀ a ∉ topicMap.values.map Topic.address, s.client.addresses.count a ≤ 1

structure Inv (s : Notified) : Prop where
  balanced : s.Balanced
  addresses : s.client.addresses = s.latest
  endpoints : ∀ a, a ∈ s.client.zsocket.endpoints ↔ a ∈ s.latest

variable {s : Notified} {topicMap : TopicDict}

theorem Inv.init : Inv {} := ⟨⟨fun _ => rfl, rfl⟩, rfl, by simp⟩

theorem Inv.step (h : s.Inv) (hq : s.NoDoubles topicMap) : (s.step topicMap).Inv := by
  obtain ⟨hnew, hold⟩ := hq
  have hz := s.client.topicMapUpdated_zsocket topicMap
  have haddr := s.client.topicMapUpdated_addresses topicMap
  rw [Notified.step]
  generalize topicMap.values.map Topic.address = new at hnew hold hz haddr ⊢
  have h1 := s.client.connectNew_connectedNew new
  have hend : ∀ a ∈ Client.gone new s.client.addresses, a ∈ (s.client.connectNew new).zsocket.endpoints := by
    intro a ha
    refine (h1.endpoints a).2 (.inl ((h.endpoints a).2 ?_))
    exact h.addresses ▸ (List.mem_filter.1 ha).1
  have hok := Client.disconnectGone_of_nodup ((Client.nodup_gone_iff ..).2 hold) hend
  have h2 := Client.disconnectGone_eq_true hok
  have h3 := Client.disconnectGone_kept new s.client.addresses (s.client.connectNew new)
  refine ⟨⟨fun a => ?_, ?_⟩, haddr hok, fun a => ?_⟩
  · have hb := h.balanced.balance a
    have hc := (h3.connects a).trans (h1.connects a)
    have hd := (h2.disconnects a).trans (congrArg (· + _) (h1.disconnects a))
    rw [Client.count_gone] at hd
    rw [← h.addresses] at hb
    simp only [Client.connects, Client.disconnects, hz] at hb hc hd ⊢
    rw [hc, hd]
    by_cases ho : a ∈ s.client.addresses <;> by_cases hn : a ∈ new
    · simp only [ho, hn, if_true] at hb ⊢
      omega
    · have := List.count_pos_iff.2 ho
      have := hold a hn
      simp only [ho, hn, if_true, if_false] at hb ⊢
      omega
    · have := List.count_pos_iff.2 hn
      have := hnew a ho
      simp only [ho, hn, if_true, if_false] at hb ⊢
      omega
    · rw [List.count_eq_zero_of_not_mem ho, List.count_eq_zero_of_not_mem hn]
      simp only [ho, hn, if_false] at hb ⊢
      omega
  · show (s.client.topicMapUpdated topicMap).2.zsocket.refused = []
    rw [hz, h2.refused, h1.refused, h.balanced.refused]
  · show a ∈ (s.client.topicMapUpdated topicMap).2.zsocket.endpoints ↔ a ∈ new
    rw [hz, h2.endpoints, h1.endpoints, h.endpoints, ← h.addresses]
    simp only [Client.gone, List.mem_filter, decide_eq_true_eq]
    tauto

/-- An address twice is one connection too many, or one `disconnect`. -/
theorem Inv.not_balanced (h : s.Inv) (hq : ¬ s.NoDoubles topicMap) : ¬ (s.step topicMap).Balanced := by
  rintro ⟨hbal, href⟩
  apply hq
  rw [NoDoubles]
  have hz := s.client.topicMapUpdated_zsocket topicMap
  rw [Notified.step] at hbal href
  generalize topicMap.values.map Topic.address = new at hz hbal href ⊢
  have h1 := s.client.connectNew_connectedNew new
  have h3 := Client.disconnectGone_kept new s.client.addresses (s.client.connectNew new)
  constructor
  · intro a ho
    by_cases hn : a ∈ new
    · have hb := h.balanced.balance a
      have hb' := hbal a
      have hc := (h3.connects a).trans (h1.connects a)
      have hd := (h3.disconnects a hn).trans (h1.disconnects a)
      rw [← h.addresses] at hb
      simp only [Client.connects, Client.disconnects, hz, ho, hn, if_true, if_false] at hb hb' hc hd
      omega
    · rw [List.count_eq_zero_of_not_mem hn]
      exact Nat.zero_le 1
  · rw [← Client.nodup_gone_iff]
    cases hok : (Client.disconnectGone new s.client.addresses (s.client.connectNew new)).1 with
    | true => exact (Client.disconnectGone_eq_true hok).nodup
    | false =>
      refine absurd ?_ (Client.disconnectGone_eq_false hok)
      rw [← hz]
      exact href

/-- After every notification of a run the connections are balanced, just in case no notification finds an
address twice that the client has to connect or to disconnect. -/
theorem balanced_iff (topicMaps : List TopicDict) :
    Run.States step Balanced {} topicMaps ↔ Run.Steps step NoDoubles {} topicMaps :=
  Run.states_iff_steps (fun _ => Inv.balanced) (fun _ _ => Inv.step) (fun _ _ => Inv.not_balanced) .init

/-- A server is started again without a goodbye: its address is there under two guids, and it is disconnected
twice when both are gone. -/
theorem disconnect_refused : ¬ ∀ topicMaps : List TopicDict, Run.States step Balanced {} topicMaps := by
  intro h
  let old : Topic := ⟨"t".toList, .pub, "tcp://10.0.0.1:5000".toList, none, none, "a".toList, 1⟩
  let new : Topic := { old with guid := "b".toList, timestamp := 2 }
  have hlast := (h [⟨[(old.guid, old)], by decide⟩, ⟨[(old.guid, old), (new.guid, new)], by decide⟩,
    ⟨[], by decide⟩]).last.refused
  exact absurd hlast (by decide)

end Notified
end A17.Dispatch.Py
