import A17.Lib.NestedMap
import A17.Dispatch.Topic

/-!
# `TopicMap` of `dispatch.py`

The Python counterpart of `DirectoryTopicStore`. `observers` is a dict of dicts, in insertion order; a
handler is a number. An operation returns what it raises or returns, the map after it and the handler
calls it made. A topic's `input_type` and `output_type` are type strings, as they come off the wire; for
a local topic, whose types are capnp classes, `typeOf` of the class.
-/

open Std

namespace A17.Dispatch.Py

inductive Exc where
  | valueError (message : Str)
  | keyError (key : Str)
  | osError (message : Str)
deriving DecidableEq

structure Topic where
  name : Str
  socketType : SocketType
  address : Str
  inputType : Option Str
  outputType : Option Str
  guid : Str
  timestamp : Int
deriving DecidableEq

abbrev GuidToTopic := ExtTreeMap Str Topic

structure Call where
  handler : Nat
  guidToTopic : GuidToTopic
deriving DecidableEq

structure TopicMap where
  myGuid : Str
  localTopics : ExtTreeMap Str Topic := ∅
  networkTopics : NestedMap Str Str Topic := ∅
  observers : List (Str × List (Str × Nat)) := []

namespace TopicMap

def new (myGuid : Str) : TopicMap := { myGuid }

def callObservers (m : TopicMap) (topicName : Str) (guidToTopic : GuidToTopic) : List Call :=
  match m.observers.lookup topicName with
  | none => []
  | some handlers => handlers.map fun h => ⟨h.2, guidToTopic⟩

def addNetwork (m : TopicMap) (topic : Topic) : TopicMap × List Call :=
  match m.networkTopics[topic.name]? with
  | some guidToTopic =>
    match guidToTopic[topic.guid]? with
    | none =>
      let guidToTopic := guidToTopic.insert topic.guid topic
      ({ m with networkTopics := m.networkTopics.insert topic.name guidToTopic },
        m.callObservers topic.name guidToTopic)
    | some old =>
      if old.address ≠ topic.address then
        let guidToTopic := guidToTopic.insert topic.guid topic
        ({ m with networkTopics := m.networkTopics.insert topic.name guidToTopic },
          m.callObservers topic.name guidToTopic)
      else (m, [])
  | none =>
    let guidToTopic := (∅ : GuidToTopic).insert topic.guid topic
    ({ m with networkTopics := m.networkTopics.insert topic.name guidToTopic },
      m.callObservers topic.name guidToTopic)

def add (m : TopicMap) (topic : Topic) : Except Exc Bool × TopicMap × List Call :=
  if topic.guid = m.myGuid then
    if m.localTopics.contains topic.name then
      (.error (.valueError ("directory ".toList ++ m.myGuid ++ " already contains topic ".toList ++ topic.name)),
        m, [])
    else (.ok true, { m with localTopics := m.localTopics.insert topic.name topic }.addNetwork topic)
  else (.ok false, m.addNetwork topic)

def remove (m : TopicMap) (guid topicName : Str) : Bool × TopicMap × List Call :=
  let removedLocal := guid = m.myGuid ∧ topicName ∈ m.localTopics
  let m := if removedLocal then { m with localTopics := m.localTopics.erase topicName } else m
  match m.networkTopics[topicName]? with
  | none => (removedLocal, m, [])
  | some topicToGuid =>
    let (topicToGuid, calls) :=
      if topicToGuid.contains guid then (topicToGuid.erase guid, m.callObservers topicName (topicToGuid.erase guid))
      else (topicToGuid, [])
    if topicToGuid.isEmpty then (removedLocal, { m with networkTopics := m.networkTopics.erase topicName }, calls)
    else (removedLocal, { m with networkTopics := m.networkTopics.insert topicName topicToGuid }, calls)

def removeAllStep (guid : Str) (m : TopicMap) (name : Str) : TopicMap × List Call :=
  match m.networkTopics[name]? with
  | none => (m, [])
  | some topicToGuid =>
    match topicToGuid[guid]? with
    | none => (m, [])
    | some topic =>
      let erased := topicToGuid.erase guid
      let m := if erased.isEmpty then { m with networkTopics := m.networkTopics.erase name }
        else { m with networkTopics := m.networkTopics.insert name erased }
      (m, m.callObservers topic.name erased)

def removeAll (m : TopicMap) (guid : Str) : TopicMap × List Call :=
  m.networkTopics.keys.foldl (fun acc name =>
    let r := removeAllStep guid acc.1 name
    (r.1, acc.2 ++ r.2)) (m, [])

/-! ### The flat view -/

variable (m : TopicMap)

def entry (n g : Str) : Option Topic := m.networkTopics.entry n g

def Accepts (topic : Topic) : Prop := ∀ old, m.entry topic.name topic.guid = some old → old.address ≠ topic.address

theorem addNetwork_of_accepts {topic : Topic} (h : m.Accepts topic) :
    (m.addNetwork topic).1 = { m with networkTopics := m.networkTopics.put topic.name topic.guid topic } := by
  unfold Accepts entry at h
  unfold addNetwork NestedMap.put
  cases hm : m.networkTopics[topic.name]? with
  | none => rfl
  | some inner =>
    rw [NestedMap.entry_of_find hm] at h
    cases ho : inner[topic.guid]? with
    | none => simp [ho]
    | some old => simp [ho, h old ho]

theorem addNetwork_of_not_accepts {topic : Topic} (h : ¬ m.Accepts topic) : (m.addNetwork topic).1 = m := by
  unfold Accepts entry at h
  push Not at h
  obtain ⟨old, ho, ha⟩ := h
  cases hm : m.networkTopics[topic.name]? with
  | none => simp [NestedMap.entry, hm] at ho
  | some inner =>
    rw [NestedMap.entry_of_find hm] at ho
    simp [addNetwork, hm, ho, ha]

theorem add_of_other {topic : Topic} (h : topic.guid ≠ m.myGuid) : m.add topic = (.ok false, m.addNetwork topic) := by
  simp [add, h]

theorem remove_eq (guid topicName : Str) : (m.remove guid topicName).2.1 = { m with
    localTopics := if guid = m.myGuid then m.localTopics.erase topicName else m.localTopics
    networkTopics := m.networkTopics.drop topicName guid } := by
  have hlocal : (if guid = m.myGuid ∧ topicName ∈ m.localTopics then
      { m with localTopics := m.localTopics.erase topicName } else m) = { m with
      localTopics := if guid = m.myGuid then m.localTopics.erase topicName else m.localTopics } := by
    by_cases hg : guid = m.myGuid
    · by_cases hn : topicName ∈ m.localTopics
      · rw [if_pos ⟨hg, hn⟩, if_pos hg]
      · rw [if_neg fun h => hn h.2, if_pos hg, ExtTreeMap.erase_eq_self (ExtTreeMap.find_eq_none.2 hn)]
    · rw [if_neg fun h => hg h.1, if_neg hg]
  unfold remove NestedMap.drop
  simp only [hlocal]
  cases hm : m.networkTopics[topicName]? with
  | none => rfl
  | some inner =>
    by_cases hc : inner.contains guid = true
    · simp only [hc, if_true]
      split <;> rfl
    · have he : inner.erase guid = inner := ExtTreeMap.erase_eq_self (ExtTreeMap.find_eq_none.2 hc)
      simp only [hc, he, Bool.false_eq_true, if_false]
      split <;> rfl

theorem remove_of_other {guid : Str} (h : guid ≠ m.myGuid) (topicName : Str) :
    (m.remove guid topicName).2.1 = { m with networkTopics := m.networkTopics.drop topicName guid } := by
  rw [remove_eq, if_neg h]

variable {m}

/-- `remove_all` skips the topics without the guid, which is the same as there are no empty dicts. -/
theorem removeAllStep_eq (h : m.networkTopics.NoEmpty) (guid name : Str) :
    (removeAllStep guid m name).1 = { m with networkTopics := m.networkTopics.drop name guid } := by
  unfold removeAllStep NestedMap.drop
  cases hm : m.networkTopics[name]? with
  | none => rfl
  | some inner =>
    cases ho : inner[guid]? with
    | none =>
      have hne : (inner.isEmpty) = false := by simpa using h name inner hm
      simp [ho, ExtTreeMap.erase_eq_self ho, hne, ExtTreeMap.insert_eq_self hm]
    | some topic =>
      simp only [ho]
      split <;> rfl

theorem removeAll_eq (h : m.networkTopics.NoEmpty) (guid : Str) :
    (m.removeAll guid).1 = { m with networkTopics := m.networkTopics.dropAll guid } := by
  have hfold : ∀ (l : List Str) (m : TopicMap) (calls : List Call), m.networkTopics.NoEmpty →
      (l.foldl (fun acc name =>
        let r := removeAllStep guid acc.1 name
        (r.1, acc.2 ++ r.2)) (m, calls)).1 =
        { m with networkTopics := l.foldl (fun acc name => acc.drop name guid) m.networkTopics } := by
    intro l
    induction l with
    | nil => intro m calls _; rfl
    | cons name l ih =>
      intro m calls hm
      simp only [List.foldl_cons]
      rw [removeAllStep_eq hm, ih _ _ (hm.drop name guid)]
  rw [removeAll, hfold _ _ _ h, NestedMap.dropAll, ← ExtTreeMap.map_fst_toList_eq_keys, List.foldl_map]

end TopicMap
end A17.Dispatch.Py
