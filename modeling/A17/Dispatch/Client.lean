import A17.Dispatch.TopicStore

/-!
# `Client`

`client.cpp`: a client connects its one socket to every provider of a topic. `addresses_` is a `std::set`; a
reference to an element of it, and an iterator at the element, are good for as long as the element is there.
`disconnect` erases the element that it was given a reference to, and goes on to use the reference
(`disconnect_element`), so the reconciliation is right as long as no address is gone.

A handler is a number; what the ZeroMQ socket and the handlers are asked to do is kept in `calls`.
-/

open Std

namespace A17.Dispatch

/-- What is used after the element of `addresses_` it stands for has been erased. -/
inductive Dangling where
  | reference | iterator
deriving DecidableEq

inductive ClientCall where
  | connect (address : Str)
  | disconnect (address : Str)
  | handler (handler : Nat) (topicName : Str)
deriving DecidableEq

structure Client where
  topicName : Str
  onConnect : Option Nat := none
  onDisconnect : Option Nat := none
  addresses : ExtTreeSet Str := ∅
  calls : List ClientCall := []

/-- A `const std::string &`: to a string of the caller, or to an element of `addresses_`. -/
inductive StringRef where
  | own (s : Str)
  | element (s : Str)

namespace Client

def read (c : Client) : StringRef → Except Dangling Str
  | .own s => .ok s
  | .element s => if s ∈ c.addresses then .ok s else .error .reference

def call (c : Client) (handler : Option Nat) : Client :=
  { c with calls := c.calls ++ handler.toList.map fun handler => .handler handler c.topicName }

def connect (c : Client) (address : Str) : Client :=
  if address ∈ c.addresses then c
  else
    { c with
      addresses := c.addresses.insert address
      calls := c.calls ++ [ClientCall.connect address] }.call c.onConnect

def disconnect (c : Client) (ref : StringRef) : Except Dangling Client := do
  let address ← c.read ref
  if address ∈ c.addresses then
    let c := { c with addresses := c.addresses.erase address }
    -- `azmqsocket_.disconnect(address)`
    let address ← c.read ref
    return { c with calls := c.calls ++ [ClientCall.disconnect address] }.call c.onDisconnect
  else return c

/-- The loop over `addresses_`, where the iterator has `elements` before it: an element can only go while
the iterator is at it. -/
def sweep (newAddresses : List Str) : List Str → Client → Except Dangling Client
  | [], c => .ok c
  | address :: elements, c => do
    let c ← if newAddresses.contains address then pure c else c.disconnect (.element address)
    if address ∈ c.addresses then sweep newAddresses elements c else .error .iterator

def connectNew (c : Client) (newAddresses : List Str) : Client :=
  newAddresses.foldl (fun c address => if address ∈ c.addresses then c else c.connect address) c

def newAddresses (guidTopicMap : GuidTopicMap) : List Str := guidTopicMap.toList.map fun item => item.2.address

def onDirectoryTopicsChanged (c : Client) (guidTopicMap : GuidTopicMap) : Except Dangling Client :=
  let new := newAddresses guidTopicMap
  let c := c.connectNew new
  sweep new c.addresses.toList c

/-! ## What is connected -/

/-- The reconciliation as it should be: of `c` with the addresses `new`. -/
structure Reconciled (c : Client) (new : List Str) (c' : Client) : Prop where
  addresses : ∀ a, a ∈ c'.addresses ↔ a ∈ new
  connects : ∀ a, c'.calls.count (.connect a) =
    c.calls.count (.connect a) + if a ∈ new ∧ a ∉ c.addresses then 1 else 0
  disconnects : ∀ a, c'.calls.count (.disconnect a) =
    c.calls.count (.disconnect a) + if a ∈ c.addresses ∧ a ∉ new then 1 else 0

/-- What the first loop does. -/
structure ConnectedNew (c : Client) (new : List Str) (c' : Client) : Prop where
  addresses : ∀ a, a ∈ c'.addresses ↔ a ∈ c.addresses ∨ a ∈ new
  connects : ∀ a, c'.calls.count (.connect a) =
    c.calls.count (.connect a) + if a ∈ new ∧ a ∉ c.addresses then 1 else 0
  disconnects : ∀ a, c'.calls.count (.disconnect a) = c.calls.count (.disconnect a)

variable {c : Client}

theorem count_call (handler : Option Nat) {op : ClientCall} (hop : ∀ h n, op ≠ .handler h n) :
    (c.call handler).calls.count op = c.calls.count op := by
  rw [call, List.count_append, Nat.add_eq_left, List.count_eq_zero]
  rintro hmem
  obtain ⟨h, -, rfl⟩ := List.mem_map.1 hmem
  exact hop h _ rfl

theorem connect_connectedNew (c : Client) (address : Str) : ConnectedNew c [address] (c.connect address) := by
  rw [connect]
  split
  · next h =>
    refine ⟨fun a => ?_, fun a => ?_, fun _ => rfl⟩
    · rw [List.mem_singleton]
      exact ⟨.inl, fun ha => ha.elim id fun ha => ha ▸ h⟩
    · rw [if_neg, Nat.add_zero]
      rintro ⟨ha, hn⟩
      exact hn (List.mem_singleton.1 ha ▸ h)
  · next h =>
    refine ⟨fun a => ?_, fun a => ?_, fun a => ?_⟩
    · show a ∈ c.addresses.insert address ↔ _
      rw [ExtTreeSet.mem_insert, LawfulEqCmp.compare_eq_iff_eq, List.mem_singleton, or_comm, eq_comm]
    · rw [count_call _ (by simp), List.count_append]
      by_cases ha : a = address
      · simp [ha, h]
      · simp [ha, Ne.symm ha]
    · rw [count_call _ (by simp), List.count_append]
      simp

theorem ConnectedNew.trans {c₁ c₂ : Client} {new₁ new₂ : List Str} (h₁ : ConnectedNew c new₁ c₁)
    (h₂ : ConnectedNew c₁ new₂ c₂) : ConnectedNew c (new₁ ++ new₂) c₂ where
  addresses a := by rw [h₂.addresses, h₁.addresses, List.mem_append, or_assoc]
  connects a := by
    rw [h₂.connects, h₁.connects, Nat.add_assoc, Nat.add_left_cancel_iff]
    simp only [h₁.addresses, List.mem_append]
    by_cases hc : a ∈ c.addresses <;> by_cases h1 : a ∈ new₁ <;> simp [hc, h1]
  disconnects a := (h₂.disconnects a).trans (h₁.disconnects a)

theorem connectNew_connectedNew (c : Client) (new : List Str) : ConnectedNew c new (c.connectNew new) := by
  induction new generalizing c with
  | nil => exact ⟨by simp [connectNew], by simp [connectNew], fun _ => rfl⟩
  | cons address new ih =>
    have hconnect : (if address ∈ c.addresses then c else c.connect address) = c.connect address := by
      rw [connect]
      split <;> rfl
    rw [connectNew, List.foldl_cons, hconnect]
    exact (connect_connectedNew c address).trans (ih _)

/-! ## The second loop -/

theorem disconnect_element {address : Str} (h : address ∈ c.addresses) :
    c.disconnect (.element address) = .error .reference := by
  have hread : c.read (.element address) = .ok address := if_pos h
  have hgone : ({ c with addresses := c.addresses.erase address }).read (.element address) = .error .reference :=
    if_neg (by simp)
  rw [disconnect, hread]
  show (if address ∈ c.addresses then _ else _) = _
  rw [if_pos h]
  dsimp only
  rw [hgone]
  rfl

theorem sweep_of_subset {new elements : List Str} (hc : ∀ a ∈ elements, a ∈ c.addresses)
    (h : ∀ a ∈ elements, a ∈ new) : sweep new elements c = .ok c := by
  induction elements with
  | nil => rfl
  | cons address elements ih =>
    rw [List.forall_mem_cons] at hc h
    rw [sweep, if_pos (List.contains_iff_mem.2 h.1)]
    show (if address ∈ c.addresses then sweep new elements c else _) = _
    rw [if_pos hc.1]
    exact ih hc.2 h.2

/-- The loop stops at the first address that is gone. -/
theorem sweep_of_gone {new elements : List Str} (hc : ∀ a ∈ elements, a ∈ c.addresses)
    (h : ¬ ∀ a ∈ elements, a ∈ new) : sweep new elements c = .error .reference := by
  induction elements with
  | nil => exact absurd (by simp) h
  | cons address elements ih =>
    rw [List.forall_mem_cons] at hc
    rw [sweep]
    split
    · next hnew =>
      show (if address ∈ c.addresses then sweep new elements c else _) = _
      rw [if_pos hc.1]
      refine ih hc.2 fun hrest => h ?_
      exact List.forall_mem_cons.2 ⟨List.contains_iff_mem.1 hnew, hrest⟩
    · rw [disconnect_element hc.1]
      rfl

theorem onDirectoryTopicsChanged_eq (c : Client) (m : GuidTopicMap) :
    c.onDirectoryTopicsChanged m = if ∀ a ∈ c.addresses.toList, a ∈ newAddresses m then
      .ok (c.connectNew (newAddresses m)) else .error .reference := by
  rw [onDirectoryTopicsChanged]
  generalize newAddresses m = new
  have hnew := connectNew_connectedNew c new
  have hmem : ∀ a ∈ (c.connectNew new).addresses.toList, a ∈ (c.connectNew new).addresses := by simp
  have hsub : (∀ a ∈ (c.connectNew new).addresses.toList, a ∈ new) ↔ ∀ a ∈ c.addresses.toList, a ∈ new := by
    simp only [ExtTreeSet.mem_toList, hnew.addresses]
    exact ⟨fun h a ha => h a (.inl ha), fun h a ha => ha.elim (h a) id⟩
  split
  · next h => exact sweep_of_subset hmem (hsub.2 h)
  · next h => exact sweep_of_gone hmem (fun h' => h (hsub.1 h'))

/-- The reconciliation comes to its end, and is right, just in case no address is gone. -/
theorem reconciled_iff (c : Client) (m : GuidTopicMap) :
    (∃ c', c.onDirectoryTopicsChanged m = .ok c' ∧ c.Reconciled (newAddresses m) c') ↔
      ∀ a ∈ c.addresses, ∃ (guid : Str) (topic : DirectoryTopic), m[guid]? = some topic ∧ topic.address = a := by
  have hcond : (∀ a ∈ c.addresses, ∃ (guid : Str) (topic : DirectoryTopic), m[guid]? = some topic ∧ topic.address = a) ↔
      ∀ a ∈ c.addresses.toList, a ∈ newAddresses m := by
    simp [newAddresses]
  rw [hcond, onDirectoryTopicsChanged_eq]
  split
  · next h =>
    refine iff_of_true ⟨_, rfl, ?_⟩ h
    have hnew := connectNew_connectedNew c (newAddresses m)
    refine ⟨fun a => ?_, hnew.connects, fun a => ?_⟩
    · rw [hnew.addresses]
      exact ⟨fun ha => ha.elim (fun ha => h a (ExtTreeSet.mem_toList.2 ha)) id, .inr⟩
    · rw [hnew.disconnects, if_neg, Nat.add_zero]
      rintro ⟨ha, hgone⟩
      exact hgone (h a (ExtTreeSet.mem_toList.2 ha))
  · next h => exact iff_of_false (by simp) h

/-- The only provider says goodbye. -/
theorem reconcile_gone : ¬ ∀ (c : Client) (m : GuidTopicMap),
    ∃ c', c.onDirectoryTopicsChanged m = .ok c' ∧ c.Reconciled (newAddresses m) c' := by
  intro h
  let c : Client := { topicName := "t".toList, addresses := (∅ : ExtTreeSet Str).insert "tcp://10.0.0.1:1".toList }
  obtain ⟨c', hc', -⟩ := h c ∅
  have hgone : c.onDirectoryTopicsChanged ∅ = .error .reference := by
    rw [onDirectoryTopicsChanged_eq, if_neg]
    decide
  rw [hgone] at hc'
  cases hc'

end Client
end A17.Dispatch
