import Mathlib.Data.Rat.Defs
import A17.Lib.Dict
import A17.Dispatch.Py.Directory

/-!
# Searching for missing topics in `dispatch.py`

The observers of `TopicMap` and the polling half of `Directory`: `query_poll` puts `_start_polling` on the
io loop, `find_missing_topics` sends the names that are missing, a few to a line, and asks the io loop to be
called again. A timeout of the io loop is a number; `timeouts` are the pending ones, `delays` all that
`call_later` was ever given, in seconds.
-/

open Std

namespace A17.Dispatch.Py
namespace TopicMap

/-- `TopicMap.observe`, with the `uuid_ref` it generates. -/
def observe (m : TopicMap) (topicName : Str) (handler : Nat) (uuidRef : Str) : TopicMap × List Call :=
  let observers := if (m.observers.lookup topicName).isNone then Dict.set m.observers topicName [] else m.observers
  let m := { m with observers := Dict.update observers topicName fun refs => Dict.set refs uuidRef handler }
  match m.networkTopics[topicName]? with
  | some guidToTopic => (m, [⟨handler, guidToTopic⟩])
  | none => (m, [])

def unobserve (m : TopicMap) (topicName uuidRef : Str) : TopicMap :=
  match m.observers.lookup topicName with
  | none => m
  | some refs =>
    if (refs.lookup uuidRef).isSome then
      { m with observers := Dict.update m.observers topicName fun refs => Dict.del refs uuidRef }
    else m

def missing (m : TopicMap) : List Str :=
  (Dict.keys m.observers).filter fun topicName =>
    match m.networkTopics[topicName]? with
    | none => true
    | some guidToTopic => guidToTopic.isEmpty

end TopicMap

/-! ### The directory -/

structure Polling extends Directory where
  broadcastTimer : Option Nat := none
  broadcastInterval : ℚ := 1
  timeouts : List Nat := []
  /-- How many timeouts `call_later` has returned. -/
  scheduled : Nat := 0
  delays : List ℚ := []

namespace Polling

def broadcastIntervalMax : ℚ := 16
def broadcastGroupingMax : Nat := 4

def new (myGuid : Str) (interfaceInfo : OwnAddress) : Polling := { toDirectory := .new myGuid interfaceInfo }

/-- `io_loop.call_later`. -/
def callLater (p : Polling) (delay : ℚ) : Nat × Polling :=
  (p.scheduled, { p with
    timeouts := p.timeouts ++ [p.scheduled]
    scheduled := p.scheduled + 1
    delays := p.delays ++ [delay] })

def removeTimeout (p : Polling) (timeout : Nat) : Polling := { p with timeouts := p.timeouts.filter (· ≠ timeout) }

def send (p : Polling) (command args : Str) : Polling := { p with toDirectory := p.toDirectory.send command args }

def queryPoll (p : Polling) : Polling := { p with toDirectory := p.toDirectory.queryPoll }

def joinName (buf topicName : Str) : Str := (if buf = [] then buf else buf ++ [' ']) ++ topicName

/-- The body of the loop of `find_missing_topics`; with the directory its locals `buf` and `count`. -/
def packName (acc : Polling × Str × Nat) (topicName : Str) : Polling × Str × Nat :=
  let acc :=
    if acc.2.2 ≥ broadcastGroupingMax ∨ acc.2.1.length + 1 + topicName.length > 1400 then
      (acc.1.send "S".toList acc.2.1, [], 0)
    else acc
  (acc.1, joinName acc.2.1 topicName, acc.2.2 + 1)

def sendSearches (p : Polling) (missingTopics : List Str) : Polling :=
  let acc := missingTopics.foldl packName (p, [], 0)
  if acc.2.1 = [] then acc.1 else acc.1.send "S".toList acc.2.1

def findMissingTopics (p : Polling) : Polling :=
  let missingTopics := p.topics.missing
  if missingTopics = [] then { p with broadcastTimer := none }
  else
    let (timeout, p) := (p.sendSearches missingTopics).callLater p.broadcastInterval
    { p with
      broadcastTimer := some timeout
      broadcastInterval :=
        if p.broadcastInterval < broadcastIntervalMax then p.broadcastInterval * 2 else p.broadcastInterval }

def startPolling (p : Polling) : Polling :=
  let p := match p.broadcastTimer with
    | some timeout => p.removeTimeout timeout
    | none => p
  { p with broadcastInterval := 1 / 10 }.findMissingTopics

/-! ### What a search sends -/

/-- The lines that ask for the groups of names `groups`. -/
def searches (myGuid : Str) (groups : List (List Str)) : List Callback :=
  groups.map fun group =>
    let args := group.foldl joinName []
    let line := "DISPATCH ".toList ++ myGuid ++ [' '] ++ "S".toList
    .send (if args = [] then line else line ++ ' ' :: args)

def searched (p : Polling) (groups : List (List Str)) : Polling :=
  { p with callbacks := p.callbacks ++ searches p.myGuid groups }

@[simp] theorem searches_nil (myGuid : Str) : searches myGuid [] = [] := rfl

@[simp] theorem searched_nil (p : Polling) : p.searched [] = p := by
  rw [searched, searches_nil, List.append_nil]

theorem send_group (p : Polling) (groups : List (List Str)) (group : List Str) :
    (p.searched groups).send "S".toList (group.foldl joinName []) = p.searched (groups ++ [group]) := by
  unfold searched searches
  rw [List.map_append, ← List.append_assoc]
  rfl

theorem packName_searched (p : Polling) (groups : List (List Str)) (group : List Str) (name : Str) :
    packName (p.searched groups, group.foldl joinName [], group.length) name =
        (p.searched (groups ++ [group]), [name].foldl joinName [], [name].length) ∨
      packName (p.searched groups, group.foldl joinName [], group.length) name =
        (p.searched groups, (group ++ [name]).foldl joinName [], (group ++ [name]).length) := by
  rw [packName]
  dsimp only
  split
  · left
    rw [send_group]
    rfl
  · right
    rw [List.foldl_concat, List.length_append, List.length_singleton]

/-- The groups sent and the names in the buffer are the names seen. -/
theorem foldl_packName (p : Polling) (groups : List (List Str)) (group names : List Str) :
    ∃ groups' group', groups'.flatten ++ group' = groups.flatten ++ group ++ names ∧
      names.foldl packName (p.searched groups, group.foldl joinName [], group.length) =
        (p.searched groups', group'.foldl joinName [], group'.length) := by
  induction names generalizing groups group with
  | nil => exact ⟨groups, group, by simp, rfl⟩
  | cons name names ih =>
    rw [List.foldl_cons]
    rcases packName_searched p groups group name with h | h
    · obtain ⟨groups', group', hflat, hfold⟩ := ih (groups ++ [group]) [name]
      refine ⟨groups', group', by simpa using hflat, ?_⟩
      rw [h]
      exact hfold
    · obtain ⟨groups', group', hflat, hfold⟩ := ih groups (group ++ [name])
      refine ⟨groups', group', by simpa using hflat, ?_⟩
      rw [h]
      exact hfold

/-- A search asks for the names given and no other; a last group of empty names only is not sent. -/
theorem sendSearches_eq (p : Polling) (names : List Str) :
    ∃ groups, groups.flatten <+: names ∧ p.sendSearches names = p.searched groups := by
  obtain ⟨groups, group, hflat, hfold⟩ := foldl_packName p [] [] names
  rw [searched_nil] at hfold
  rw [List.flatten_nil, List.nil_append, List.nil_append] at hflat
  have hacc : names.foldl packName (p, [], 0) = (p.searched groups, group.foldl joinName [], group.length) := hfold
  rw [sendSearches, hacc]
  dsimp only
  split
  · exact ⟨groups, ⟨group, hflat⟩, rfl⟩
  · exact ⟨groups ++ [group], ⟨[], by simp [← hflat]⟩, send_group ..⟩

theorem findMissingTopics_of_none {p : Polling} (h : p.topics.missing = []) :
    p.findMissingTopics = { p with broadcastTimer := none } := if_pos h

theorem findMissingTopics_of_some {p : Polling} (h : p.topics.missing ≠ []) :
    ∃ groups, groups.flatten <+: p.topics.missing ∧ p.findMissingTopics = { p.searched groups with
      broadcastTimer := some p.scheduled
      timeouts := p.timeouts ++ [p.scheduled]
      scheduled := p.scheduled + 1
      delays := p.delays ++ [p.broadcastInterval]
      broadcastInterval :=
        if p.broadcastInterval < broadcastIntervalMax then p.broadcastInterval * 2 else p.broadcastInterval } := by
  obtain ⟨groups, hpre, hs⟩ := sendSearches_eq p p.topics.missing
  refine ⟨groups, hpre, ?_⟩
  rw [findMissingTopics]
  dsimp only
  rw [if_neg h, hs]
  rfl

/-- What goes out asks for missing names only. -/
theorem callbacks_findMissingTopics (p : Polling) : ∃ groups : List (List Str),
    p.findMissingTopics.callbacks = p.callbacks ++ searches p.myGuid groups ∧
      ∀ group ∈ groups, ∀ name ∈ group, name ∈ p.topics.missing := by
  by_cases h : p.topics.missing = []
  · refine ⟨[], ?_, by simp⟩
    rw [findMissingTopics_of_none h, searches_nil, List.append_nil]
  · obtain ⟨groups, hpre, hfind⟩ := findMissingTopics_of_some h
    refine ⟨groups, by rw [hfind]; rfl, fun group hgroup name hname => ?_⟩
    exact hpre.subset (List.mem_flatten.2 ⟨group, hgroup, hname⟩)

end Polling
end A17.Dispatch.Py
