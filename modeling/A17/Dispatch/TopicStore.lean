import A17.Lib.NestedMap
import A17.Dispatch.Topic

/-!
# `DirectoryTopicStore`

The two redundant maps of `directory.cpp` (`networkTopics`, name to guid to topic, and `localTopics`)
and the observers. An operation returns what it throws or returns, the store after it and the handler
calls it made, in order (`Notification`); a handler is a number, since the store only keeps and calls
it. The multimap `observers` is the list of its entries in insertion order: `equal_range` picks the
entries of one key in that order and nothing depends on the order between keys.
-/

open Std

namespace A17.Dispatch

abbrev GuidTopicMap := ExtTreeMap Str DirectoryTopic

structure DirectoryObserver where
  handler : Nat
  ref : Str
deriving DecidableEq

structure Notification where
  observer : DirectoryObserver
  topicName : Str
  guidTopicMap : GuidTopicMap
deriving DecidableEq

structure DirectoryTopicStore where
  myGuid : Str
  localTopics : ExtTreeMap Str DirectoryTopic := ∅
  networkTopics : NestedMap Str Str DirectoryTopic := ∅
  observers : List (Str × DirectoryObserver) := []

namespace DirectoryTopicStore

def new (myGuid : Str) : DirectoryTopicStore := { myGuid }

def equalRange (s : DirectoryTopicStore) (key : Str) : List DirectoryObserver :=
  (s.observers.filter fun e => e.1 = key).map Prod.snd

def callObservers (s : DirectoryTopicStore) (topicName : Str) (guidTopicMap : GuidTopicMap) :
    List Notification :=
  -- observers of this topic, then observers of all topics
  let handlers := s.equalRange topicName ++ s.equalRange []
  handlers.map fun o => ⟨o, topicName, guidTopicMap⟩

def setGuidTopicMap (s : DirectoryTopicStore) (topicName : Str) (guidTopicMap : GuidTopicMap) :
    DirectoryTopicStore × List Notification :=
  ({ s with networkTopics := s.networkTopics.insert topicName guidTopicMap },
    s.callObservers topicName guidTopicMap)

def addNetwork (s : DirectoryTopicStore) (topic : DirectoryTopic) : DirectoryTopicStore × List Notification :=
  match s.networkTopics[topic.name]? with
  | some guidTopicMap =>
    match guidTopicMap[topic.guid]? with
    | none => s.setGuidTopicMap topic.name (guidTopicMap.insert topic.guid topic)
    | some old =>
      if old.address ≠ topic.address then
        s.setGuidTopicMap topic.name (guidTopicMap.insert topic.guid topic)
      else (s, [])
  | none => s.setGuidTopicMap topic.name ((∅ : GuidTopicMap).insert topic.guid topic)

def add (s : DirectoryTopicStore) (topic : DirectoryTopic) :
    Except Str Bool × DirectoryTopicStore × List Notification :=
  if topic.guid = s.myGuid then
    if s.localTopics.contains topic.name then
      (.error ("Duplicate topic: ".toList ++ topic.name), s, [])
    else
      (.ok true, { s with localTopics := s.localTopics.insert topic.name topic }.addNetwork topic)
  else (.ok false, s.addNetwork topic)

/-- The body shared by `remove` and the loop of `evict`: erase `guid` under `topicName`, notify if
it was there, erase the inner map once empty. -/
def eraseGuid (s : DirectoryTopicStore) (guid topicName : Str) : DirectoryTopicStore × List Notification :=
  match s.networkTopics[topicName]? with
  | none => (s, [])
  | some guidTopicMap =>
    let erased := guidTopicMap.erase guid
    let calls := if guidTopicMap.contains guid then s.callObservers topicName erased else []
    if erased.isEmpty then ({ s with networkTopics := s.networkTopics.erase topicName }, calls)
    else ({ s with networkTopics := s.networkTopics.insert topicName erased }, calls)

def remove (s : DirectoryTopicStore) (guid topicName : Str) : Bool × DirectoryTopicStore × List Notification :=
  if guid = s.myGuid then
    (s.localTopics.contains topicName,
      { s with localTopics := s.localTopics.erase topicName }.eraseGuid guid topicName)
  else (false, s.eraseGuid guid topicName)

/-- `DirectoryTopicStore::evict`: the pass over the topics present when it starts. -/
def evict (s : DirectoryTopicStore) (guid : Str) : DirectoryTopicStore × List Notification :=
  s.networkTopics.toList.foldl (fun acc e =>
    let (s', calls) := acc.1.eraseGuid guid e.1
    (s', acc.2 ++ calls)) (s, [])

/-- `DirectoryTopicStore::observe`, with the fresh `ref` it generates. -/
def observe (s : DirectoryTopicStore) (topicName : Str) (handler : Nat) (ref : Str) : DirectoryTopicStore :=
  { s with observers := s.observers ++ [(topicName, ⟨handler, ref⟩)] }

def unobserve (s : DirectoryTopicStore) (topicName ref : Str) : DirectoryTopicStore :=
  { s with observers := s.observers.filter fun e => ¬ (e.1 = topicName ∧ e.2.ref = ref) }

/-- `DirectoryTopicStore::callImmediate`: the map the handler is called with, if it is called. -/
def callImmediate (s : DirectoryTopicStore) (topicName : Str) : Option GuidTopicMap :=
  s.networkTopics[topicName]?

def size (s : DirectoryTopicStore) : Nat := s.networkTopics.size

def hasTopic (s : DirectoryTopicStore) (topicName : Str) : Bool := s.networkTopics.contains topicName

def getMissing (s : DirectoryTopicStore) : ExtTreeSet Str :=
  s.observers.foldl (fun topics e =>
    if s.networkTopics.contains e.1 then topics else topics.insert e.1) ∅

def findLocal (s : DirectoryTopicStore) (topicName : Str) : Option DirectoryTopic := s.localTopics[topicName]?

/-! ### The flat view -/

variable (s : DirectoryTopicStore)

def entry (n g : Str) : Option DirectoryTopic := s.networkTopics.entry n g

def guidMap (n : Str) : GuidTopicMap := s.networkTopics[n]?.getD ∅

def Accepts (topic : DirectoryTopic) : Prop :=
  ∀ old, s.entry topic.name topic.guid = some old → old.address ≠ topic.address

instance (topic : DirectoryTopic) : Decidable (s.Accepts topic) :=
  match h : s.entry topic.name topic.guid with
  | none => .isTrue fun _ h' => by rw [h] at h'; cases h'
  | some old =>
    if ha : old.address = topic.address then .isFalse fun h' => h' old h ha
    else .isTrue fun old' h' => by rw [h] at h'; cases h'; exact ha

theorem guidMap_find (n g : Str) : (s.guidMap n)[g]? = s.entry n g := by
  unfold guidMap entry NestedMap.entry
  cases s.networkTopics[n]? <;> simp

theorem addNetwork_eq (topic : DirectoryTopic) : s.addNetwork topic =
    if s.Accepts topic then
      ({ s with networkTopics := s.networkTopics.put topic.name topic.guid topic },
        s.callObservers topic.name ((s.guidMap topic.name).insert topic.guid topic))
    else (s, []) := by
  cases hm : s.networkTopics[topic.name]? with
  | none =>
    have hA : s.Accepts topic := fun old h => by simp [entry, NestedMap.entry, hm] at h
    simp [addNetwork, hm, hA, setGuidTopicMap, NestedMap.put, guidMap]
  | some m =>
    have he : s.entry topic.name topic.guid = m[topic.guid]? := NestedMap.entry_of_find hm _
    cases ho : m[topic.guid]? with
    | none =>
      have hA : s.Accepts topic := fun old h => by rw [he, ho] at h; cases h
      simp [addNetwork, hm, ho, hA, setGuidTopicMap, NestedMap.put, guidMap]
    | some old =>
      have hA : s.Accepts topic ↔ old.address ≠ topic.address := by simp [Accepts, he, ho]
      by_cases ha : old.address = topic.address <;>
        simp [addNetwork, hm, ho, hA, ha, setGuidTopicMap, NestedMap.put, guidMap]

theorem eraseGuid_eq (guid topicName : Str) : s.eraseGuid guid topicName =
    ({ s with networkTopics := s.networkTopics.drop topicName guid },
      if (s.entry topicName guid).isSome then s.callObservers topicName ((s.guidMap topicName).erase guid)
      else []) := by
  unfold eraseGuid NestedMap.drop guidMap entry NestedMap.entry
  cases hm : s.networkTopics[topicName]? with
  | none => simp
  | some m =>
    simp only [Option.bind_some, ExtTreeMap.isSome_getElem?_eq_contains, Option.getD_some]
    split <;> rfl

theorem entry_addNetwork (topic : DirectoryTopic) (n g : Str) : (s.addNetwork topic).1.entry n g =
    if (topic.name = n ∧ topic.guid = g) ∧ s.Accepts topic then some topic else s.entry n g := by
  rw [addNetwork_eq]
  by_cases h : s.Accepts topic
  · simp only [h, if_true, and_true]; exact NestedMap.entry_put ..
  · simp [h]

theorem entry_eraseGuid (guid topicName n g : Str) : (s.eraseGuid guid topicName).1.entry n g =
    if topicName = n ∧ guid = g then none else s.entry n g := by
  rw [eraseGuid_eq]; exact NestedMap.entry_drop ..

/-! ### Evicting -/

theorem evict_foldl (guid : Str) (l : List (Str × GuidTopicMap)) (cs : List Notification) :
    (l.foldl (fun acc e =>
      let (s', calls) := DirectoryTopicStore.eraseGuid acc.1 guid e.1
      (s', acc.2 ++ calls)) (s, cs)).1 =
      { s with networkTopics := l.foldl (fun acc e => acc.drop e.1 guid) s.networkTopics } := by
  induction l generalizing s cs with
  | nil => rfl
  | cons e l ih =>
    simp only [List.foldl_cons]
    rw [ih, eraseGuid_eq]

theorem evict_fst (guid : Str) : (s.evict guid).1 = { s with networkTopics := s.networkTopics.dropAll guid } :=
  s.evict_foldl guid _ _

theorem entry_evict (guid n g : Str) : (s.evict guid).1.entry n g = if guid = g then none else s.entry n g := by
  rw [evict_fst]; exact NestedMap.entry_dropAll ..

end DirectoryTopicStore
end A17.Dispatch
