import Mathlib.Data.Int.ConditionallyCompleteOrder
import A17.Lib.FirstMaximum
import A17.Dispatch.RequestClient

/-!
# A `RequestClient` follows the newest provider

`NewestTopic` is the first maximum of a map that is iterated in the order of the guids (`isNewest_of_newestTopic`). What
the client does between two notifications leaves its provider alone: a timeout makes a new socket, to the
same address. So the provider is the newest of the last map (`Follows`), whatever happens after it.
-/

open Std

namespace A17.Dispatch

/-- The topic of `m` with the largest timestamp, of those the one with the smallest guid. -/
def IsNewest (m : GuidTopicMap) (topic : DirectoryTopic) : Prop :=
  ∃ guid, m[guid]? = some topic ∧ ∀ (guid' : Str) (topic' : DirectoryTopic), m[guid']? = some topic' →
    topic'.timestamp ≤ topic.timestamp ∧
      (topic'.timestamp = topic.timestamp → guid = guid' ∨ compare guid guid' = .lt)

theorem newestTopic_eq_argmax (m : GuidTopicMap) :
    newestTopic m = (m.toList.argmax fun guidTopic => guidTopic.2.timestamp).map Prod.snd := by
  rw [newestTopic]
  cases m.toList with
  | nil => rfl
  | cons first rest =>
    rw [FirstMaximum.argmax_cons_eq_foldl, Option.map_some]
    refine congrArg some (List.foldl_hom Prod.snd fun newest guidTopic => ?_)
    split <;> rfl

theorem isNewest_of_newestTopic {m : GuidTopicMap} {topic : DirectoryTopic} (h : newestTopic m = some topic) :
    IsNewest m topic := by
  rw [newestTopic_eq_argmax, Option.map_eq_some_iff] at h
  obtain ⟨⟨guid, topic⟩, harg, rfl⟩ := h
  refine ⟨guid, ExtTreeMap.mem_toList_iff_getElem?_eq_some.1 (List.argmax_mem harg), ?_⟩
  intro guid' topic' h'
  have hmem := ExtTreeMap.mem_toList_iff_getElem?_eq_some.2 h'
  have hle := List.le_of_mem_argmax hmem harg
  refine ⟨hle, fun heq => ?_⟩
  rcases FirstMaximum.eq_or_rel_of_argmax ExtTreeMap.ordered_keys_toList harg hmem heq.ge with he | hlt
  · exact .inl (congrArg Prod.fst he)
  · exact .inr hlt

/-- The map of the last notification. -/
def ClientOp.latestMap (ops : List ClientOp) : Option GuidTopicMap :=
  ops.foldl (fun latest op => match op with
    | .topicsChanged guidTopicMap => some guidTopicMap
    | _ => latest) none

namespace RequestClient
variable {c : RequestClient}

/-- The socket was connected to the address of the connected topic. -/
def Addressed (c : RequestClient) : Prop := ∀ s ∈ c.socket, s.address = c.connectedTopic.address

/-- The client is where a notification with `m` puts it. -/
structure Follows (c : RequestClient) (m : GuidTopicMap) : Prop where
  connected : c.isConnected = !m.isEmpty
  topic : ∀ topic ∈ newestTopic m, c.connectedTopic = topic

/-- The provider stays, if perhaps on another socket. -/
structure SameProvider (c c' : RequestClient) : Prop where
  topic : c'.connectedTopic = c.connectedTopic
  address : c'.socket.map Connection.address = c.socket.map Connection.address

namespace SameProvider
variable {c' : RequestClient}

theorem isConnected (h : SameProvider c c') : c'.isConnected = c.isConnected := by
  have := congrArg Option.isSome h.address
  rwa [Option.isSome_map, Option.isSome_map] at this

theorem addressed (h : SameProvider c c') (hc : c.Addressed) : c'.Addressed := by
  intro s' hs'
  have hmap := h.address
  rw [Option.mem_def.1 hs', Option.map_some, eq_comm, Option.map_eq_some_iff] at hmap
  obtain ⟨s, hs, heq⟩ := hmap
  rw [← heq, h.topic]
  exact hc s hs

theorem follows (h : SameProvider c c') {m : GuidTopicMap} (hc : c.Follows m) : c'.Follows m where
  connected := h.isConnected.trans hc.connected
  topic topic ht := h.topic.trans (hc.topic topic ht)

end SameProvider

theorem onReceive_sameProvider (c : RequestClient) (result : Except ErrorCode Part) (returns : Bool) :
    SameProvider c (c.onReceive result returns) := by
  rw [onReceive]
  split
  · exact ⟨rfl, rfl⟩
  next s hs =>
  split
  · exact ⟨rfl, rfl⟩
  -- every way on puts the socket back with its address
  · dsimp only
    split <;> exact ⟨rfl, by rw [hs]; rfl⟩

theorem complete_sameProvider (h : c.Addressed) (i : Nat) : SameProvider c (c.complete i) := by
  have hstep := c.complete_step i
  generalize c.complete i = c' at hstep ⊢
  cases hstep with
  | none => exact ⟨rfl, rfl⟩
  | aborted => exact ⟨rfl, rfl⟩
  | timedOut =>
    refine ⟨rfl, ?_⟩
    show (c.socket.map _).map Connection.address = _
    cases hs : c.socket with
    | none => rfl
    | some s => exact congrArg some (h s hs).symm

theorem step_sameProvider (h : c.Addressed) {op : ClientOp} (hop : ∀ m, op ≠ .topicsChanged m) :
    SameProvider c (c.step op) := by
  cases op with
  | request message replyHandler errorHandler timeout zmqSend =>
    rw [step]
    rcases c.request_cases message replyHandler errorHandler timeout zmqSend with
      ⟨ec, sent, heq⟩ | ⟨s, sent, timer, -, hs, -, heq⟩
    · rw [heq]
      exact ⟨rfl, rfl⟩
    · rw [heq]
      exact ⟨rfl, by rw [hs]; rfl⟩
  | receive result returns => exact c.onReceive_sameProvider result returns
  | topicsChanged m => exact absurd rfl (hop m)
  | expire => exact ⟨rfl, rfl⟩
  | complete i => exact complete_sameProvider h i

/-- The early return of `connect` is right: it is the socket to this topic that is kept. -/
theorem onDirectoryTopicsChanged_follows (h : c.Addressed) (m : GuidTopicMap) :
    (c.onDirectoryTopicsChanged m).Addressed ∧ (c.onDirectoryTopicsChanged m).Follows m := by
  rw [onDirectoryTopicsChanged]
  split
  · next hm =>
    rw [disconnect_eq]
    refine ⟨by simp [Addressed], by simp [isConnected, hm], ?_⟩
    rw [newestTopic_eq_none.2 hm]
    simp
  · next hm =>
    split
    · next ht => exact absurd (newestTopic_eq_none.1 ht) hm
    · next topic ht =>
      have hne : m.isEmpty = false := by simpa using hm
      rw [connect_eq]
      split
      · next hkeep =>
        obtain ⟨hc, rfl⟩ : c.isConnected = true ∧ topic = c.connectedTopic := by simpa using hkeep
        exact ⟨h, by rw [hc, hne]; rfl, by simp [ht]⟩
      · exact ⟨by simp [Addressed], by simp [isConnected, hne], by simp [ht]⟩

theorem run_follows (ops : List ClientOp) :
    (run {} ops).Addressed ∧ ∀ m ∈ ClientOp.latestMap ops, (run {} ops).Follows m := by
  refine Run.history (H := fun ops (c : RequestClient) => c.Addressed ∧ ∀ m ∈ ClientOp.latestMap ops, c.Follows m)
    ⟨by simp [Addressed], by simp [ClientOp.latestMap]⟩ ?_
  intro pre op _ ih
  generalize pre.foldl step {} = c at ih ⊢
  by_cases hop : ∃ m, op = .topicsChanged m
  · obtain ⟨m, rfl⟩ := hop
    have hm := onDirectoryTopicsChanged_follows ih.1 m
    refine ⟨hm.1, ?_⟩
    simpa [ClientOp.latestMap, step] using hm.2
  · push Not at hop
    have hsame := step_sameProvider ih.1 hop
    refine ⟨hsame.addressed ih.1, fun m hm => hsame.follows (ih.2 m ?_)⟩
    rw [ClientOp.latestMap, List.foldl_concat] at hm
    cases op with
    | topicsChanged m' => exact absurd rfl (hop m')
    | _ => exact hm

/-- After the last notification, and whatever follows it, the client is connected if and only if there is a
provider, and then to the newest one. -/
theorem follows_newest (ops : List ClientOp) (m : GuidTopicMap) (hm : ClientOp.latestMap ops = some m) :
    ((run {} ops).isConnected = true ↔ m.isEmpty = false) ∧
      ∀ s, (run {} ops).socket = some s →
        s.address = (run {} ops).connectedTopic.address ∧ IsNewest m (run {} ops).connectedTopic := by
  obtain ⟨haddr, hfollows⟩ := run_follows ops
  have h := hfollows m hm
  refine ⟨by rw [h.connected]; simp, fun s hs => ⟨haddr s hs, ?_⟩⟩
  have hne : m.isEmpty = false := by simpa [isConnected, hs] using h.connected
  cases ht : newestTopic m with
  | none => exact absurd (newestTopic_eq_none.1 ht) (by simp [hne])
  | some topic =>
    rw [h.topic topic ht]
    exact isNewest_of_newestTopic ht

/-- Two providers of one age, and a request that times out. -/
theorem follows_newest_tie :
    let a : DirectoryTopic := ⟨"t".toList, 5, .rep, "tcp://10.0.0.1:1".toList, ∅, ∅, "a".toList, []⟩
    let b : DirectoryTopic := ⟨"t".toList, 5, .rep, "tcp://10.0.0.2:1".toList, ∅, ∅, "b".toList, []⟩
    let m : GuidTopicMap := (∅ : GuidTopicMap) |>.insert b.guid b |>.insert a.guid a
    let c := run {} [.topicsChanged m, .request [[1]] (some 0) (some 1) 2 fun _ => none, .expire, .complete 0]
    (c.isConnected = true ↔ m.isEmpty = false) ∧
      ∀ s, c.socket = some s → s.address = c.connectedTopic.address ∧ IsNewest m c.connectedTopic :=
  follows_newest _ _ rfl

end RequestClient
end A17.Dispatch
