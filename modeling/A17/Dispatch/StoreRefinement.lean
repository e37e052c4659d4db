import A17.Dispatch.TopicStore
import Mathlib.Data.Set.Card

/-!
# `DirectoryTopicStore` refines a flat partial map

The purpose of the store is a partial map from (name, guid) to topics (`FlatMap`). `Inv` says that
the nested map has no empty inner map, files each topic under its own name and guid, and that
`localTopics` is its own-guid slice; every operation keeps it (`evict` for another guid only, the
one way `Directory` calls it) and acts on the flat map as `FlatMap.step` says. `run_refines_flatMap`
collects this for whole runs.
-/

open Std

namespace A17.Dispatch

inductive StoreOp where
  | observe (topicName : Str) (handler : Nat) (ref : Str)
  | unobserve (topicName ref : Str)
  | add (topic : DirectoryTopic)
  | remove (guid topicName : Str)
  | evict (guid : Str)

namespace DirectoryTopicStore

/-- One call: the store after it (also when it throws) and the handler calls it makes. -/
def step (s : DirectoryTopicStore) : StoreOp → DirectoryTopicStore × List Notification
  | .observe topicName handler ref => (s.observe topicName handler ref, [])
  | .unobserve topicName ref => (s.unobserve topicName ref, [])
  | .add topic => (s.add topic).2
  | .remove guid topicName => (s.remove guid topicName).2
  | .evict guid => s.evict guid

def run (s : DirectoryTopicStore) (ops : List StoreOp) : DirectoryTopicStore :=
  ops.foldl (fun s op => (s.step op).1) s

theorem run_append (s : DirectoryTopicStore) (ops ops' : List StoreOp) :
    s.run (ops ++ ops') = (s.run ops).run ops' := List.foldl_append ..

@[simp] theorem run_nil (s : DirectoryTopicStore) : s.run [] = s := rfl

@[simp] theorem run_concat (s : DirectoryTopicStore) (ops : List StoreOp) (op : StoreOp) :
    s.run (ops ++ [op]) = ((s.run ops).step op).1 := by
  rw [run_append]; rfl

/-! ### Frames -/

section
variable (s : DirectoryTopicStore)

@[simp] theorem addNetwork_myGuid (t : DirectoryTopic) : (s.addNetwork t).1.myGuid = s.myGuid := by
  rw [addNetwork_eq]; split <;> rfl

@[simp] theorem addNetwork_localTopics (t : DirectoryTopic) :
    (s.addNetwork t).1.localTopics = s.localTopics := by
  rw [addNetwork_eq]; split <;> rfl

@[simp] theorem addNetwork_observers (t : DirectoryTopic) : (s.addNetwork t).1.observers = s.observers := by
  rw [addNetwork_eq]; split <;> rfl

@[simp] theorem eraseGuid_myGuid (g n : Str) : (s.eraseGuid g n).1.myGuid = s.myGuid := by rw [eraseGuid_eq]

@[simp] theorem eraseGuid_localTopics (g n : Str) : (s.eraseGuid g n).1.localTopics = s.localTopics := by
  rw [eraseGuid_eq]

@[simp] theorem eraseGuid_observers (g n : Str) : (s.eraseGuid g n).1.observers = s.observers := by
  rw [eraseGuid_eq]

@[simp] theorem evict_myGuid (g : Str) : (s.evict g).1.myGuid = s.myGuid := by rw [evict_fst]
@[simp] theorem evict_localTopics (g : Str) : (s.evict g).1.localTopics = s.localTopics := by rw [evict_fst]
@[simp] theorem evict_observers (g : Str) : (s.evict g).1.observers = s.observers := by rw [evict_fst]

theorem add_of_duplicate {t : DirectoryTopic} (hg : t.guid = s.myGuid) (hn : t.name ∈ s.localTopics) :
    s.add t = (.error ("Duplicate topic: ".toList ++ t.name), s, []) := by
  simp [add, hg, hn]

theorem add_of_own {t : DirectoryTopic} (hg : t.guid = s.myGuid) (hn : t.name ∉ s.localTopics) :
    s.add t = (.ok true, { s with localTopics := s.localTopics.insert t.name t }.addNetwork t) := by
  simp [add, hg, hn]

theorem add_of_other {t : DirectoryTopic} (hg : t.guid ≠ s.myGuid) :
    s.add t = (.ok false, s.addNetwork t) := by
  simp [add, hg]

theorem remove_of_other {g : Str} (n : Str) (hg : g ≠ s.myGuid) : s.remove g n = (false, s.eraseGuid g n) := by
  simp [remove, hg]

theorem remove_of_own (n : Str) : s.remove s.myGuid n = (s.localTopics.contains n,
    { s with localTopics := s.localTopics.erase n }.eraseGuid s.myGuid n) := by
  simp [remove]

@[simp] theorem add_observers (t : DirectoryTopic) : (s.add t).2.1.observers = s.observers := by
  unfold add; split <;> [split; skip] <;> simp

@[simp] theorem remove_observers (g n : Str) : (s.remove g n).2.1.observers = s.observers := by
  unfold remove; split <;> simp

@[simp] theorem step_myGuid (op : StoreOp) : (s.step op).1.myGuid = s.myGuid := by
  cases op with
  | observe | unobserve => rfl
  | add t => simp only [step, add]; split <;> [split; skip] <;> simp
  | remove g n => simp only [step, remove]; split <;> simp
  | evict g => simp [step]

theorem run_myGuid (ops : List StoreOp) : (s.run ops).myGuid = s.myGuid := by
  induction ops using List.reverseRecOn with
  | nil => rfl
  | append_singleton ops op ih => rw [run_concat, step_myGuid, ih]

variable {s} in
theorem addNetwork_noEmpty (t : DirectoryTopic) (h : s.networkTopics.NoEmpty) :
    (s.addNetwork t).1.networkTopics.NoEmpty := by
  rw [addNetwork_eq]; split
  · exact h.put t.name t.guid t
  · exact h

theorem entry_add (t : DirectoryTopic) (n g : Str) : (s.add t).2.1.entry n g =
    if (t.name = n ∧ t.guid = g) ∧ s.Accepts t ∧ ¬ (t.guid = s.myGuid ∧ t.name ∈ s.localTopics) then some t
    else s.entry n g := by
  by_cases hg : t.guid = s.myGuid
  · by_cases hn : t.name ∈ s.localTopics
    · simp [s.add_of_duplicate hg hn, hg, hn]
    · rw [s.add_of_own hg hn, entry_addNetwork]
      simp only [hn, and_false, not_false_eq_true, and_true]
      rfl
  · rw [s.add_of_other hg, entry_addNetwork]; simp [hg]

theorem entry_remove (g₀ n₀ n g : Str) : (s.remove g₀ n₀).2.1.entry n g =
    if n₀ = n ∧ g₀ = g then none else s.entry n g := by
  by_cases hg : g₀ = s.myGuid
  · rw [hg, remove_of_own, entry_eraseGuid]; rfl
  · rw [s.remove_of_other n₀ hg, entry_eraseGuid]

end

/-! ### The invariant -/

structure Inv (s : DirectoryTopicStore) : Prop where
  noEmpty : s.networkTopics.NoEmpty
  keys : ∀ n g t, s.entry n g = some t → t.name = n ∧ t.guid = g
  /-- `local_topics_` is the own-guid slice of `network_topics_`. -/
  mine : ∀ n : Str, s.localTopics[n]? = s.entry n s.myGuid

namespace Inv
variable {s : DirectoryTopicStore}

theorem of_new (myGuid : Str) : Inv (new myGuid) :=
  ⟨NestedMap.noEmpty_empty, fun n g t h => by simp [entry, new] at h, fun n => by simp [entry, new]⟩

theorem mem_local_iff (h : s.Inv) {n : Str} : n ∈ s.localTopics ↔ (s.entry n s.myGuid).isSome := by
  rw [ExtTreeMap.mem_iff_isSome_getElem?, h.mine]

theorem accepts_own (h : s.Inv) {t : DirectoryTopic} (hg : t.guid = s.myGuid) (hn : t.name ∉ s.localTopics) :
    s.Accepts t := by
  intro old ho
  rw [hg] at ho
  exact absurd (h.mem_local_iff.2 (by rw [ho]; rfl)) hn

theorem add (h : s.Inv) (t : DirectoryTopic) : (s.add t).2.1.Inv := by
  have hkeys : ∀ n g t', (s.add t).2.1.entry n g = some t' → t'.name = n ∧ t'.guid = g := by
    intro n g t' ht
    rw [entry_add] at ht
    split at ht
    · next hc => cases ht; exact hc.1
    · exact h.keys n g t' ht
  by_cases hg : t.guid = s.myGuid
  · by_cases hn : t.name ∈ s.localTopics
    · rw [s.add_of_duplicate hg hn]; exact h
    · refine ⟨?_, hkeys, fun n => ?_⟩
      · rw [s.add_of_own hg hn]; exact addNetwork_noEmpty t h.noEmpty
      · -- the name is new, so both maps take the topic
        rw [entry_add, s.add_of_own hg hn, addNetwork_localTopics, addNetwork_myGuid]
        simp only [h.accepts_own hg hn, hn, hg, and_false, not_false_eq_true, and_true, ExtTreeMap.find_insert,
          h.mine]
  · refine ⟨?_, hkeys, fun n => ?_⟩
    · rw [s.add_of_other hg]; exact addNetwork_noEmpty t h.noEmpty
    · rw [entry_add, s.add_of_other hg, addNetwork_localTopics, addNetwork_myGuid, h.mine]
      simp [hg]

theorem remove (h : s.Inv) (g₀ n₀ : Str) : (s.remove g₀ n₀).2.1.Inv := by
  refine ⟨?_, fun n g t ht => ?_, fun n => ?_⟩
  · unfold DirectoryTopicStore.remove
    split <;> rw [eraseGuid_eq] <;> exact h.noEmpty.drop n₀ g₀
  · rw [entry_remove] at ht
    split at ht
    · cases ht
    · exact h.keys n g t ht
  · rw [entry_remove]
    unfold DirectoryTopicStore.remove
    split
    · next hg =>
      rw [eraseGuid_localTopics, eraseGuid_myGuid]
      simp only [ExtTreeMap.find_erase, h.mine, hg, and_true]
    · next hg => simp [h.mine, hg]

theorem evict (h : s.Inv) {g₀ : Str} (hg : g₀ ≠ s.myGuid) : (s.evict g₀).1.Inv := by
  refine ⟨?_, fun n g t ht => ?_, fun n => ?_⟩
  · rw [evict_fst]; exact h.noEmpty.dropAll g₀
  · rw [entry_evict] at ht
    split at ht
    · cases ht
    · exact h.keys n g t ht
  · rw [entry_evict, evict_localTopics, evict_myGuid, h.mine, if_neg hg]

theorem step (h : s.Inv) {op : StoreOp} (hop : op ≠ .evict s.myGuid) : (s.step op).1.Inv := by
  cases op with
  | observe | unobserve => exact ⟨h.noEmpty, h.keys, h.mine⟩
  | add t => exact h.add t
  | remove g n => exact h.remove g n
  | evict g => exact h.evict fun hg => hop (by rw [hg])

theorem run_of (h : s.Inv) {ops : List StoreOp} (hev : StoreOp.evict s.myGuid ∉ ops) : (s.run ops).Inv := by
  induction ops using List.reverseRecOn with
  | nil => exact h
  | append_singleton ops op ih =>
    simp only [List.mem_append, List.mem_singleton, not_or] at hev
    rw [run_concat]
    exact (ih hev.1).step (by rw [run_myGuid]; exact Ne.symm hev.2)

theorem run {myGuid : Str} {ops : List StoreOp} (hev : StoreOp.evict myGuid ∉ ops) :
    ((new myGuid).run ops).Inv := (of_new myGuid).run_of hev

end Inv
end DirectoryTopicStore

/-! ### The flat map -/

/-- What the store is for: topics by name and guid. -/
abbrev FlatMap := Str → Str → Option DirectoryTopic

namespace FlatMap

def add (M : FlatMap) (t : DirectoryTopic) : FlatMap := fun n g =>
  if (t.name = n ∧ t.guid = g) ∧ ((M t.name t.guid).all fun old => old.address ≠ t.address) then some t
  else M n g

def remove (M : FlatMap) (g₀ n₀ : Str) : FlatMap := fun n g => if n₀ = n ∧ g₀ = g then none else M n g

def evict (M : FlatMap) (g₀ : Str) : FlatMap := fun n g => if g₀ = g then none else M n g

def stepPlain (M : FlatMap) : StoreOp → FlatMap
  | .add t => M.add t
  | .remove g n => M.remove g n
  | .evict g => M.evict g
  | _ => M

/-- The abstract effect of a call: as `stepPlain`, but the own topics are write-once (adding one
that is there throws). -/
def step (myGuid : Str) (M : FlatMap) : StoreOp → FlatMap
  | .add t => if t.guid = myGuid ∧ (M t.name t.guid).isSome then M else M.add t
  | op => M.stepPlain op

def run (myGuid : Str) (ops : List StoreOp) : FlatMap := ops.foldl (step myGuid) fun _ _ => none

end FlatMap

namespace DirectoryTopicStore
variable {s : DirectoryTopicStore}

theorem accepts_iff (t : DirectoryTopic) :
    s.Accepts t ↔ ((s.entry t.name t.guid).all fun old => old.address ≠ t.address) = true := by
  unfold Accepts
  cases s.entry t.name t.guid <;> simp

theorem entry_step (h : s.Inv) (op : StoreOp) : (s.step op).1.entry = FlatMap.step s.myGuid s.entry op := by
  funext n g
  cases op with
  | observe | unobserve => rfl
  | add t =>
    simp only [step, FlatMap.step]
    rw [entry_add]
    by_cases hd : t.guid = s.myGuid ∧ t.name ∈ s.localTopics
    · have hs : (s.entry t.name t.guid).isSome := by rw [hd.1]; exact h.mem_local_iff.1 hd.2
      simp [hd, hd.1 ▸ hs]
    · have hs : ¬ (t.guid = s.myGuid ∧ (s.entry t.name t.guid).isSome) := by
        rintro ⟨h1, h2⟩; exact hd ⟨h1, h.mem_local_iff.2 (h1 ▸ h2)⟩
      simp only [hd, not_false_eq_true, and_true, hs, if_false, FlatMap.add, accepts_iff]
  | remove g₀ n₀ => exact s.entry_remove g₀ n₀ n g
  | evict g₀ => exact s.entry_evict g₀ n g

theorem entry_run {myGuid : Str} {ops : List StoreOp} (hev : StoreOp.evict myGuid ∉ ops) :
    ((new myGuid).run ops).entry = FlatMap.run myGuid ops := by
  induction ops using List.reverseRecOn with
  | nil => funext n g; simp [entry, new, FlatMap.run]
  | append_singleton ops op ih =>
    simp only [List.mem_append, List.mem_singleton, not_or] at hev
    rw [run_concat, entry_step (Inv.run hev.1), ih hev.1, run_myGuid]
    simp [FlatMap.run, new]

/-- The store and the flat map agree in everything a caller can ask. -/
structure Refines (s : DirectoryTopicStore) (M : FlatMap) : Prop where
  mem_iff : ∀ n, n ∈ s.networkTopics ↔ ∃ g t, M n g = some t
  inner : ∀ (n : Str) (m : GuidTopicMap), s.networkTopics[n]? = some m → m ≠ ∅ ∧ ∀ g : Str, m[g]? = M n g
  keys : ∀ (n : Str) (m : GuidTopicMap) (g : Str) t, s.networkTopics[n]? = some m → m[g]? = some t →
    t.name = n ∧ t.guid = g
  size : s.size = {n | ∃ g t, M n g = some t}.ncard
  hasTopic : ∀ n, s.hasTopic n = true ↔ ∃ g t, M n g = some t
  localTopics : ∀ n : Str, s.localTopics[n]? = M n s.myGuid

theorem Inv.refines (h : s.Inv) : s.Refines s.entry := by
  have hmem : ∀ n, n ∈ s.networkTopics ↔ ∃ g t, s.entry n g = some t := fun n => h.noEmpty.mem_iff
  refine ⟨hmem, fun n m hm => ⟨h.noEmpty n m hm, fun g => (NestedMap.entry_of_find hm g).symm⟩,
    fun n m g t hm ht => h.keys n g t (by rw [entry, NestedMap.entry_of_find hm, ht]), ?_, fun n => ?_, h.mine⟩
  · have hset : {n | ∃ g t, s.entry n g = some t} = (s.networkTopics.keys.toFinset : Set Str) := by
      ext n; simp [← hmem n]
    rw [hset, Set.ncard_coe_finset, List.toFinset_card_of_nodup ExtTreeMap.nodup_keys, ExtTreeMap.length_keys]
    rfl
  · rw [← hmem n, ExtTreeMap.mem_iff_contains]; rfl

theorem add_error_iff (t : DirectoryTopic) :
    (∃ e, (s.add t).1 = .error e) ↔ t.guid = s.myGuid ∧ t.name ∈ s.localTopics := by
  by_cases hg : t.guid = s.myGuid
  · by_cases hn : t.name ∈ s.localTopics
    · simp [s.add_of_duplicate hg hn, hg, hn]
    · simp [s.add_of_own hg hn, hn]
  · simp [s.add_of_other hg, hg]

theorem add_error_unchanged {t : DirectoryTopic} {e : Str} (h : (s.add t).1 = .error e) :
    (s.add t).2 = (s, []) := by
  obtain ⟨hg, hn⟩ := add_error_iff t |>.1 ⟨e, h⟩
  rw [s.add_of_duplicate hg hn]

theorem add_true_iff (t : DirectoryTopic) :
    (s.add t).1 = .ok true ↔ (s.add t).2.1.localTopics ≠ s.localTopics := by
  by_cases hg : t.guid = s.myGuid
  · by_cases hn : t.name ∈ s.localTopics
    · simp [s.add_of_duplicate hg hn]
    · simp only [s.add_of_own hg hn, addNetwork_localTopics, true_iff]
      intro h0
      exact hn (h0 ▸ ExtTreeMap.mem_insert_self)
  · simp [s.add_of_other hg]

theorem remove_true_iff (g n : Str) :
    (s.remove g n).1 = true ↔ (s.remove g n).2.1.localTopics ≠ s.localTopics := by
  by_cases hg : g = s.myGuid
  · subst hg
    rw [remove_of_own, eraseGuid_localTopics, ← ExtTreeMap.mem_iff_contains]
    constructor
    · intro hn h0
      rw [← h0] at hn
      exact absurd hn (by simp)
    · intro hne
      by_contra hn
      exact hne (ExtTreeMap.erase_eq_self (ExtTreeMap.find_eq_none.2 hn))
  · simp [s.remove_of_other n hg]

/-- After any calls the store is the flat map they describe. -/
theorem run_refines_flatMap (myGuid : Str) (ops : List StoreOp) (hev : StoreOp.evict myGuid ∉ ops) :
    let s := (new myGuid).run ops
    s.Refines (FlatMap.run myGuid ops) ∧
      (∀ t, t.guid = myGuid → ((∃ e, (s.add t).1 = .error e) ↔ t.name ∈ s.localTopics)) ∧
      (∀ t e, (s.add t).1 = .error e → (s.add t).2.1 = s) ∧
      (∀ t, (s.add t).1 = .ok true ↔ (s.add t).2.1.localTopics ≠ s.localTopics) ∧
      (∀ g n, (s.remove g n).1 = true ↔ (s.remove g n).2.1.localTopics ≠ s.localTopics) := by
  intro s
  refine ⟨?_, fun t ht => ?_, fun t e h => ?_, add_true_iff, remove_true_iff⟩
  · rw [← entry_run hev]; exact (Inv.run hev).refines
  · rw [add_error_iff, run_myGuid]; simp [ht, new]
  · rw [add_error_unchanged h]

def ownTopic (address : Str) : DirectoryTopic :=
  ⟨"TEST/1".toList, 10, .rep, address, ∅, ∅, "1001".toList, []⟩

theorem run_refines_flatMap_evict :
    StoreOp.evict "1001".toList ∉ [StoreOp.add (ownTopic "addr://test1".toList), .evict "1002".toList] ∧
      ((new "1001".toList).run
        [.add (ownTopic "addr://test1".toList), .evict "1002".toList]).Refines
        (FlatMap.run "1001".toList [.add (ownTopic "addr://test1".toList), .evict "1002".toList]) :=
  ⟨by simp, (run_refines_flatMap _ _ (by simp)).1⟩

/-- The flat map that overwrites an own topic on a changed address is not refined: adding the topic
a second time at another address throws and keeps the first. -/
theorem stepPlain_not_refined :
    let ops := [StoreOp.add (ownTopic "addr://test1".toList), .add (ownTopic "addr://test2".toList)]
    StoreOp.evict "1001".toList ∉ ops ∧
      ¬ ((new "1001".toList).run ops).Refines
        (ops.foldl FlatMap.stepPlain fun _ _ => none) := by
  refine ⟨by simp, fun h => ?_⟩
  have := h.localTopics "TEST/1".toList
  revert this
  decide

end DirectoryTopicStore
end A17.Dispatch
