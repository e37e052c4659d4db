import A17.Lib.FirstMaximum
import A17.Dispatch.Py.Client

/-!
# `RequestClient` of `dispatch.py`

A request client connects at once, and disconnects by way of a callback on the io loop. It leaves a provider
only for one with another address and a later timestamp, whether the old one is still there or not. So it can
end up with a provider that is gone, and the callback can end a connection that came after it was queued
(`Loses`).

`ω` is the state of the owner of the client, which `on_disconnect` changes; the calls of `on_connect` that are
due are counted in `scheduled`.
-/

namespace A17.Dispatch.Py

/-- A `ZMQStream` on a socket that was connected to an address, and whether replies are to be handled. -/
structure Stream where
  address : Str
  receiving : Bool := false
deriving DecidableEq

structure RequestClient (ω : Type) where
  owner : ω
  stream : Option Stream := none
  connectedTopic : Option Topic := none
  /-- How many `_disconnect`s are on the io loop. -/
  queue : Nat := 0
  scheduled : Nat := 0
deriving DecidableEq

/-- `_newest_topic_in_topic_map`. -/
def newestTopicInTopicMap (topicMap : TopicDict) : Option Topic :=
  match topicMap.values with
  | [] => none
  | first :: rest => some ((first :: rest).foldl (fun newestTopic topic =>
      if topic.timestamp > newestTopic.timestamp then topic else newestTopic) first)

namespace RequestClient
variable {ω : Type} (onDisconnect : ω → ω)

def closeStream (c : RequestClient ω) : RequestClient ω := { c with stream := none, owner := onDisconnect c.owner }

/-- The `_disconnect` of `disconnect`. -/
def disconnect (c : RequestClient ω) : RequestClient ω :=
  match c.connectedTopic with
  | none => c
  | some _ => closeStream onDisconnect { c with connectedTopic := none }

/-- The `_connect` of `connect`. -/
def connect (c : RequestClient ω) (topic : Topic) : RequestClient ω :=
  { c.disconnect onDisconnect with
    connectedTopic := some topic, stream := some { address := topic.address }, scheduled := c.scheduled + 1 }

def topicMapUpdated (c : RequestClient ω) (topicMap : TopicDict) : RequestClient ω :=
  match newestTopicInTopicMap topicMap with
  | none => { c with queue := c.queue + 1 }
  | some newestTopic =>
    match c.connectedTopic with
    | none => c.connect onDisconnect newestTopic
    | some topic =>
      if newestTopic.address ≠ topic.address ∧ newestTopic.timestamp > topic.timestamp then
        c.connect onDisconnect newestTopic
      else c

/-- The next `_disconnect` on the io loop is run. -/
def runCallback (c : RequestClient ω) : RequestClient ω :=
  match c.queue with
  | 0 => c
  | queue + 1 => { c with queue }.disconnect onDisconnect

end RequestClient

/-! ## What an operation does to the connection -/

theorem newestTopicInTopicMap_mem {m : TopicDict} {topic : Topic} (h : newestTopicInTopicMap m = some topic) :
    topic ∈ m.values := by
  rw [newestTopicInTopicMap] at h
  split at h
  · cases h
  · next first rest heq =>
    obtain rfl := Option.some.inj h
    rw [heq]
    exact FirstMaximum.foldl_mem first rest

namespace RequestClient
variable {ω : Type} {onDisconnect : ω → ω} (c : RequestClient ω)

@[simp] theorem disconnect_connectedTopic : (c.disconnect onDisconnect).connectedTopic = none := by
  rw [disconnect]
  split
  · next h => exact h
  · rfl

@[simp] theorem disconnect_queue : (c.disconnect onDisconnect).queue = c.queue := by
  rw [disconnect]
  split <;> rfl

end RequestClient

/-! ## Runs -/

inductive WatchOp where
  | updated (topicMap : TopicDict)
  | runCallback

/-- A request client, and the topics of the last map it was notified of. -/
structure Watching (ω : Type) where
  client : RequestClient ω
  latest : List Topic := []

namespace Watching
variable {ω : Type} (onDisconnect : ω → ω)

def step (s : Watching ω) : WatchOp → Watching ω
  | .updated topicMap => { client := s.client.topicMapUpdated onDisconnect topicMap, latest := topicMap.values }
  | .runCallback => { s with client := s.client.runCallback onDisconnect }

/-- The client has a provider if there is one, and it is one of those there are. -/
structure Provided (s : Watching ω) : Prop where
  connected : s.client.connectedTopic.isSome ↔ s.latest ≠ []
  address : ∀ topic ∈ s.client.connectedTopic, topic.address ∈ s.latest.map Topic.address

/-- `Provided`, whenever nothing is left on the io loop. -/
def ProvidedWhenIdle (s : Watching ω) : Prop := s.client.queue = 0 → s.Provided

/-- The client is disconnected for a map that was empty when it is no longer; or it stays with a provider that
is gone, as none of those there are is newer. -/
def Loses (s : Watching ω) : WatchOp → Prop
  | .updated topicMap => s.client.queue = 0 ∧ ∃ newestTopic ∈ newestTopicInTopicMap topicMap,
    ∃ topic ∈ s.client.connectedTopic, topic.address ∉ topicMap.values.map Topic.address ∧
      ¬ topic.timestamp < newestTopic.timestamp
  | .runCallback => s.client.queue = 1 ∧ s.latest ≠ []

variable {onDisconnect} {s : Watching ω}

theorem connect_provided {topicMap : TopicDict} {topic : Topic} (h : newestTopicInTopicMap topicMap = some topic) :
    Provided { client := s.client.connect onDisconnect topic, latest := topicMap.values } where
  connected := by
    have hne : topicMap.values ≠ [] := List.ne_nil_of_mem (newestTopicInTopicMap_mem h)
    simpa [RequestClient.connect] using hne
  address := by
    rintro _ ⟨⟩
    exact List.mem_map_of_mem (newestTopicInTopicMap_mem h)

theorem updated_iff (topicMap : TopicDict) :
    (s.step onDisconnect (.updated topicMap)).ProvidedWhenIdle ↔ ¬ s.Loses (.updated topicMap) := by
  rw [step, Loses, ProvidedWhenIdle, RequestClient.topicMapUpdated]
  cases hnew : newestTopicInTopicMap topicMap with
  | none => simp
  | some newestTopic =>
    cases hc : s.client.connectedTopic with
    | none => exact iff_of_true (fun _ => connect_provided hnew) (by simp)
    | some topic =>
      dsimp only
      split
      · next hswitch => exact iff_of_true (fun _ => connect_provided hnew) (by simp [hswitch.2])
      · next hstay =>
        -- the client stays: that is right if the address is still there
        have hne : topicMap.values ≠ [] := List.ne_nil_of_mem (newestTopicInTopicMap_mem hnew)
        constructor
        · rintro h ⟨hq, _, ⟨⟩, _, ⟨⟩, hgone, -⟩
          exact hgone ((h hq).address topic hc)
        · intro h hq
          have hmem : topic.address ∈ topicMap.values.map Topic.address := by
            by_contra hgone
            refine h ⟨hq, newestTopic, rfl, topic, rfl, hgone, fun hlt => hstay ⟨?_, hlt⟩⟩
            intro heq
            exact hgone (heq ▸ List.mem_map_of_mem (newestTopicInTopicMap_mem hnew))
          refine ⟨by simp [hc, hne], ?_⟩
          intro topic' htopic
          rw [hc] at htopic
          cases htopic
          exact hmem

theorem runCallback_iff (h : s.ProvidedWhenIdle) :
    (s.step onDisconnect .runCallback).ProvidedWhenIdle ↔ ¬ s.Loses .runCallback := by
  rw [step, Loses, ProvidedWhenIdle, RequestClient.runCallback]
  cases hq : s.client.queue with
  | zero => exact iff_of_true (fun _ => h hq) (by simp)
  | succ queue =>
    simp only [RequestClient.disconnect_queue, Nat.add_eq_right, not_and, not_not]
    refine forall_congr' fun _ => ⟨fun hp => ?_, fun hlatest => ⟨by simp [hlatest], by simp⟩⟩
    by_contra hne
    simpa using hp.connected.2 hne

theorem step_iff (h : s.ProvidedWhenIdle) (op : WatchOp) :
    (s.step onDisconnect op).ProvidedWhenIdle ↔ ¬ s.Loses op := by
  cases op with
  | updated topicMap => exact updated_iff topicMap
  | runCallback => exact runCallback_iff h

/-- From a client without connection: it is provided whenever the io loop is idle, just in case no step of
the run loses the provider. -/
theorem providedWhenIdle_iff (onDisconnect : ω → ω) (owner : ω) (ops : List WatchOp) :
    Run.States (step onDisconnect) ProvidedWhenIdle { client := { owner } } ops ↔
      Run.Steps (step onDisconnect) (fun s op => ¬ s.Loses op) { client := { owner } } ops := by
  refine Run.states_iff_steps (fun _ => id) (fun s op h => (step_iff h op).2) ?_ ?_
  · intro s op h hloses hp
    exact hloses ((step_iff h op).1 hp)
  · exact fun _ => ⟨by simp, by simp⟩

/-- The only provider goes and another one comes before the io loop is back: the client is left without. -/
theorem provider_lost : ¬ ∀ ops : List WatchOp,
    Run.States (step (id : Unit → Unit)) ProvidedWhenIdle { client := { owner := () } } ops := by
  intro h
  let a : Topic := ⟨"t".toList, .rep, "tcp://10.0.0.1:5000".toList, none, none, "a".toList, 1⟩
  let b : Topic := ⟨"t".toList, .rep, "tcp://10.0.0.2:5000".toList, none, none, "b".toList, 2⟩
  have hlast := (h [.updated ⟨[(a.guid, a)], by decide⟩, .updated ⟨[], by decide⟩,
    .updated ⟨[(b.guid, b)], by decide⟩, .runCallback]).last rfl
  exact absurd (hlast.connected.2 (by decide)) (by decide)

end Watching
end A17.Dispatch.Py
