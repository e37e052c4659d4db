import A17.Lib.Run
import A17.Dispatch.Py.Polling

/-!
# The missing set of `dispatch.py` over a history

`missing` should be the names that have an observer, as the calls alone tell (`Registered`), and no provider.
`unobserve` takes the observer out of the inner dict and leaves the outer entry of the name behind, and `missing`
goes over the outer entries: a name that was ever observed (`Observed`) stays among the missing when its last
observer is gone, and the directory goes on searching for it (`missing_exact_iff`).
-/

open Std

namespace A17.Dispatch.Py

inductive TopicMapOp where
  | observe (topicName : Str) (handler : Nat) (uuidRef : Str)
  | unobserve (topicName uuidRef : Str)
  | add (topic : Topic)
  | remove (guid topicName : Str)
  | removeAll (guid : Str)

namespace TopicMap

def step (m : TopicMap) : TopicMapOp → TopicMap
  | .observe topicName handler uuidRef => (m.observe topicName handler uuidRef).1
  | .unobserve topicName uuidRef => m.unobserve topicName uuidRef
  | .add topic => (m.add topic).2.1
  | .remove guid topicName => (m.remove guid topicName).2.1
  | .removeAll guid => (m.removeAll guid).1

def run (m : TopicMap) (ops : List TopicMapOp) : TopicMap := ops.foldl step m

def Registered (ops : List TopicMapOp) (n : Str) : Prop :=
  ∃ ref, Run.Standing (fun op => ∃ handler, op = .observe n handler ref) (· = .unobserve n ref) ops

/-- Some observer of `n` was registered, whether or not it was taken back. -/
def Observed (ops : List TopicMapOp) (n : Str) : Prop := ∃ handler ref, .observe n handler ref ∈ ops

def Provided (m : TopicMap) (n : Str) : Prop := ∃ g t, m.entry n g = some t

def observer (m : TopicMap) (n ref : Str) : Option Nat := (m.observers.lookup n).bind (·.lookup ref)

variable {m : TopicMap}

/-! ### One call -/

theorem observe_observers (n : Str) (handler : Nat) (ref : Str) :
    (m.observe n handler ref).1.observers = Dict.update
      (if (m.observers.lookup n).isNone then Dict.set m.observers n [] else m.observers) n
        fun refs => Dict.set refs ref handler := by
  unfold observe
  dsimp only
  split <;> rfl

theorem lookup_observe (n : Str) (handler : Nat) (ref n' : Str) :
    (m.observe n handler ref).1.observers.lookup n' =
      if n = n' then some (Dict.set ((m.observers.lookup n).getD []) ref handler) else m.observers.lookup n' := by
  rw [observe_observers, Dict.lookup_update]
  by_cases hn : n = n'
  · subst hn
    cases hl : m.observers.lookup n with
    | none => simp [Dict.lookup_set]
    | some refs => simp [hl]
  · rw [if_neg hn, if_neg hn]
    split
    · rw [Dict.lookup_set, if_neg hn]
    · rfl

theorem lookup_unobserve (n ref n' : Str) : (m.unobserve n ref).observers.lookup n' =
    if n = n' then (m.observers.lookup n).map (Dict.del · ref) else m.observers.lookup n' := by
  -- without the reference nothing happens, as if it were deleted
  have hidle : (m.observer n ref) = none → (m.observers.lookup n).map (Dict.del · ref) = m.observers.lookup n := by
    unfold observer
    cases m.observers.lookup n with
    | none => intro _; rfl
    | some refs => intro h; rw [Option.map_some, Dict.del_eq_self h]
  unfold observer at hidle
  cases hl : m.observers.lookup n with
  | none =>
    have h : m.unobserve n ref = m := by simp [unobserve, hl]
    rw [h]
    split
    · next hn => rw [← hn, hl]; rfl
    · rfl
  | some refs =>
    cases hr : refs.lookup ref with
    | none =>
      have h : m.unobserve n ref = m := by simp [unobserve, hl, hr]
      rw [h, ← hl, hidle (by rw [hl, Option.bind_some, hr])]
      split
      · next hn => rw [hn]
      · rfl
    | some handler =>
      have h : (m.unobserve n ref).observers = Dict.update m.observers n (Dict.del · ref) := by
        simp [unobserve, hl, hr]
      rw [h, Dict.lookup_update]
      split
      · next hn => rw [← hn, hl]
      · rfl

theorem addNetwork_observers (t : Topic) : (m.addNetwork t).1.observers = m.observers := by
  by_cases h : m.Accepts t
  · rw [addNetwork_of_accepts m h]
  · rw [addNetwork_of_not_accepts m h]

theorem addNetwork_noEmpty (t : Topic) (h : m.networkTopics.NoEmpty) : (m.addNetwork t).1.networkTopics.NoEmpty := by
  by_cases hacc : m.Accepts t
  · rw [addNetwork_of_accepts m hacc]
    exact h.put t.name t.guid t
  · rw [addNetwork_of_not_accepts m hacc]
    exact h

theorem add_observers (t : Topic) : (m.add t).2.1.observers = m.observers := by
  unfold add
  split
  · split
    · rfl
    · exact addNetwork_observers t
  · exact addNetwork_observers t

/-- What the calls keep: no empty inner dict of topics, each name once. -/
structure Inv (m : TopicMap) : Prop where
  noEmpty : m.networkTopics.NoEmpty
  nodup : (Dict.keys m.observers).Nodup

theorem Inv.congr {m' : TopicMap} (h : m.Inv) (hn : m'.networkTopics.NoEmpty) (ho : m'.observers = m.observers) :
    m'.Inv := ⟨hn, by rw [ho]; exact h.nodup⟩

theorem Inv.observe (h : m.Inv) (n : Str) (handler : Nat) (ref : Str) : (m.observe n handler ref).1.Inv := by
  refine ⟨?_, ?_⟩
  · unfold TopicMap.observe
    dsimp only
    split <;> exact h.noEmpty
  · rw [observe_observers, Dict.keys_update]
    split
    · exact Dict.nodup_keys_set h.nodup []
    · exact h.nodup

theorem Inv.unobserve (h : m.Inv) (n ref : Str) : (m.unobserve n ref).Inv := by
  unfold TopicMap.unobserve
  split
  · exact h
  · split
    · exact ⟨h.noEmpty, by rw [Dict.keys_update]; exact h.nodup⟩
    · exact h

theorem Inv.add (h : m.Inv) (t : Topic) : (m.add t).2.1.Inv := by
  refine h.congr ?_ (add_observers t)
  unfold TopicMap.add
  split
  · split
    · exact h.noEmpty
    · exact addNetwork_noEmpty t h.noEmpty
  · exact addNetwork_noEmpty t h.noEmpty

theorem Inv.step (h : m.Inv) (op : TopicMapOp) : (m.step op).Inv := by
  cases op with
  | observe n handler ref => exact h.observe n handler ref
  | unobserve n ref => exact h.unobserve n ref
  | add t => exact h.add t
  | remove guid n =>
    rw [TopicMap.step, remove_eq]
    exact ⟨h.noEmpty.drop n guid, h.nodup⟩
  | removeAll guid =>
    rw [TopicMap.step, removeAll_eq h.noEmpty]
    exact ⟨h.noEmpty.dropAll guid, h.nodup⟩

/-- The names with an entry: `unobserve` leaves the entry there. -/
theorem mem_keys_step (h : m.Inv) (op : TopicMapOp) (n : Str) : n ∈ Dict.keys (m.step op).observers ↔
    n ∈ Dict.keys m.observers ∨ ∃ handler ref, op = .observe n handler ref := by
  rw [Dict.mem_keys, Dict.mem_keys]
  cases op with
  | observe n' handler' ref' =>
    rw [step, lookup_observe]
    by_cases hn : n' = n <;> simp [hn]
  | unobserve n' ref' =>
    rw [step, lookup_unobserve]
    by_cases hn : n' = n <;> simp [hn]
  | add t => simp [step, add_observers]
  | remove guid n' => simp [step, remove_eq]
  | removeAll guid => simp [step, removeAll_eq h.noEmpty]

theorem observer_step (h : m.Inv) (op : TopicMapOp) (n ref : Str) : ((m.step op).observer n ref).isSome ↔
    (∃ handler, op = .observe n handler ref) ∨ ((m.observer n ref).isSome ∧ ¬ op = .unobserve n ref) := by
  unfold observer
  cases op with
  | observe n' handler' ref' =>
    rw [step, lookup_observe]
    by_cases hn : n' = n
    · subst hn
      rw [if_pos rfl, Option.bind_some, Dict.lookup_set]
      by_cases hr : ref' = ref
      · simp [hr]
      · cases m.observers.lookup n' <;> simp [hr]
    · simp [hn]
  | unobserve n' ref' =>
    rw [step, lookup_unobserve]
    by_cases hn : n' = n
    · subst hn
      rw [if_pos rfl]
      cases m.observers.lookup n' with
      | none => simp
      | some refs =>
        rw [Option.map_some, Option.bind_some, Option.bind_some, Dict.lookup_del]
        by_cases hr : ref' = ref <;> simp [hr]
    · simp [hn]
  | add t => simp [step, add_observers]
  | remove guid n' => simp [step, remove_eq]
  | removeAll guid => simp [step, removeAll_eq h.noEmpty]

/-! ### Runs -/

theorem Inv.run (myGuid : Str) (ops : List TopicMapOp) : ((new myGuid).run ops).Inv :=
  Run.invariant (fun _ op h => Inv.step h op) ⟨NestedMap.noEmpty_empty, List.nodup_nil⟩

theorem run_concat (m : TopicMap) (ops : List TopicMapOp) (op : TopicMapOp) :
    m.run (ops ++ [op]) = (m.run ops).step op := List.foldl_concat ..

theorem observed_iff (myGuid : Str) (ops : List TopicMapOp) (n : Str) :
    Observed ops n ↔ n ∈ Dict.keys ((new myGuid).run ops).observers := by
  induction ops using List.reverseRecOn with
  | nil => simp [Observed, run, new, Dict.keys]
  | append_singleton ops op ih =>
    rw [run_concat, mem_keys_step (Inv.run ..), ← ih]
    simp only [Observed, List.mem_append, List.mem_singleton, exists_or, eq_comm]

theorem standing_iff (myGuid : Str) (ops : List TopicMapOp) (n ref : Str) :
    Run.Standing (fun op => ∃ handler, op = .observe n handler ref) (· = .unobserve n ref) ops ↔
      (((new myGuid).run ops).observer n ref).isSome := by
  induction ops using List.reverseRecOn with
  | nil => simp [Run.not_standing_nil, run, new, observer]
  | append_singleton ops op ih => rw [Run.standing_concat, run_concat, observer_step (Inv.run ..), ih]

theorem Registered.observed {ops : List TopicMapOp} {n : Str} (h : Registered ops n) : Observed ops n := by
  obtain ⟨ref, pre, op, post, rfl, ⟨handler, rfl⟩, -⟩ := h
  exact ⟨handler, ref, by simp⟩

theorem mem_missing_run (myGuid : Str) (ops : List TopicMapOp) (n : Str) :
    n ∈ ((new myGuid).run ops).missing ↔ Observed ops n ∧ ¬ ((new myGuid).run ops).Provided n := by
  have hinv := Inv.run myGuid ops
  rw [observed_iff myGuid, missing, List.mem_filter]
  refine and_congr_right fun _ => ?_
  have hp : ((new myGuid).run ops).Provided n ↔ n ∈ ((new myGuid).run ops).networkTopics := by
    rw [hinv.noEmpty.mem_iff]
    rfl
  rw [hp, ← ExtTreeMap.find_eq_none]
  cases hm : ((new myGuid).run ops).networkTopics[n]? with
  | none => simp
  | some inner => simpa using hinv.noEmpty n inner hm

/-- The names `missing` should return are those it does return, each once, and a search asks for names that have
an observer only, exactly if every name all of whose observers were taken back has a provider. -/
theorem missing_exact_iff (myGuid : Str) (ops : List TopicMapOp) :
    let m := (new myGuid).run ops
    (m.missing.Nodup ∧ (∀ n, n ∈ m.missing ↔ Registered ops n ∧ ¬ m.Provided n) ∧
      ∀ p : Polling, p.topics = m → ∃ groups : List (List Str),
        p.findMissingTopics.callbacks = p.callbacks ++ Polling.searches p.myGuid groups ∧
          ∀ group ∈ groups, ∀ n ∈ group, Registered ops n) ↔
      ∀ n, Observed ops n → ¬ Registered ops n → m.Provided n := by
  intro m
  constructor
  · rintro ⟨-, hexact, -⟩ n hobs hreg
    by_contra hprov
    exact hreg ((hexact n).1 ((mem_missing_run myGuid ops n).2 ⟨hobs, hprov⟩)).1
  · intro h
    have hexact : ∀ n, n ∈ m.missing ↔ Registered ops n ∧ ¬ m.Provided n := by
      intro n
      rw [mem_missing_run]
      constructor
      · rintro ⟨hobs, hprov⟩
        exact ⟨by_contra fun hreg => hprov (h n hobs hreg), hprov⟩
      · rintro ⟨hreg, hprov⟩
        exact ⟨hreg.observed, hprov⟩
    refine ⟨(Inv.run myGuid ops).nodup.filter _, hexact, fun p hp => ?_⟩
    obtain ⟨groups, hsent, hasked⟩ := Polling.callbacks_findMissingTopics p
    refine ⟨groups, hsent, fun group hgroup n hn => ?_⟩
    have hmem := hasked group hgroup n hn
    rw [hp] at hmem
    exact ((hexact n).1 hmem).1

/-- The only observer of `t` is taken back: `t` stays missing. -/
theorem missing_after_unobserve :
    let ops := [TopicMapOp.observe "t".toList 0 "r".toList, .unobserve "t".toList "r".toList]
    let m := (new "n1".toList).run ops
    ¬ (m.missing.Nodup ∧ (∀ n, n ∈ m.missing ↔ Registered ops n ∧ ¬ m.Provided n) ∧
      ∀ p : Polling, p.topics = m → ∃ groups : List (List Str),
        p.findMissingTopics.callbacks = p.callbacks ++ Polling.searches p.myGuid groups ∧
          ∀ group ∈ groups, ∀ n ∈ group, Registered ops n) := by
  rintro ops m ⟨-, hexact, -⟩
  have hmem : "t".toList ∈ m.missing := by decide
  obtain ⟨ref, hs⟩ := ((hexact _).1 hmem).1
  rw [standing_iff "n1".toList] at hs
  have hnone : m.observers = [("t".toList, [])] := by decide
  rw [observer, show (new "n1".toList).run ops = m from rfl, hnone] at hs
  simp at hs

end TopicMap
end A17.Dispatch.Py
