import A17.Lib.Run
import A17.Dispatch.QueryTimer

/-!
# The missing set over a history

`getMissing` is what `queryMissingTopics` searches for. Over any calls it should be the specific names that
have an observer, as the calls alone tell (`Registered`), and no provider. It treats the empty name, under
which the observers of all topics are filed, as a name like any other: while such an observer stands, `""`
is missing, and the query timer never comes to rest (`getMissing_exact_iff`).
-/

open Std

namespace A17.Dispatch
namespace DirectoryTopicStore

/-- An observer of `n` was registered and has not been taken back. -/
def Registered (ops : List StoreOp) (n : Str) : Prop :=
  ∃ ref, Run.Standing (fun op => ∃ handler, op = .observe n handler ref) (· = .unobserve n ref) ops

def Provided (s : DirectoryTopicStore) (n : Str) : Prop := ∃ g t, s.entry n g = some t

variable {s : DirectoryTopicStore}

/-! ### One call -/

theorem step_noEmpty (h : s.networkTopics.NoEmpty) (op : StoreOp) : (s.step op).1.networkTopics.NoEmpty := by
  cases op with
  | observe | unobserve => exact h
  | add t =>
    simp only [step, add]
    split
    · split
      · exact h
      · exact addNetwork_noEmpty t h
    · exact addNetwork_noEmpty t h
  | remove g n =>
    simp only [step, remove]
    split <;> rw [eraseGuid_eq] <;> exact h.drop n g
  | evict g =>
    simp only [step, evict_fst]
    exact h.dropAll g

/-- Adding, removing and evicting leave the observers alone. -/
theorem mem_observers_step (n ref : Str) (op : StoreOp) :
    (∃ handler, (n, ⟨handler, ref⟩) ∈ (s.step op).1.observers) ↔
      (∃ handler, op = .observe n handler ref) ∨
        ((∃ handler, (n, ⟨handler, ref⟩) ∈ s.observers) ∧ ¬ op = .unobserve n ref) := by
  cases op with
  | observe n' handler' ref' =>
    simp only [step, observe, List.mem_append, List.mem_singleton, Prod.mk.injEq, DirectoryObserver.mk.injEq,
      exists_or, StoreOp.observe.injEq, reduceCtorEq, not_false_eq_true, and_true]
    rw [or_comm]
    refine or_congr_left (exists_congr fun handler => ?_)
    constructor
    · rintro ⟨rfl, rfl, rfl⟩
      exact ⟨rfl, rfl, rfl⟩
    · rintro ⟨rfl, rfl, rfl⟩
      exact ⟨rfl, rfl, rfl⟩
  | unobserve n' ref' =>
    simp only [step, unobserve, List.mem_filter, decide_eq_true_eq, exists_and_right, StoreOp.unobserve.injEq,
      reduceCtorEq, exists_false, false_or]
    rw [eq_comm (a := n), eq_comm (a := ref)]
  | add | remove | evict => simp [step]

/-! ### Runs -/

theorem run_noEmpty (myGuid : Str) (ops : List StoreOp) : ((new myGuid).run ops).networkTopics.NoEmpty :=
  Run.invariant (I := fun s : DirectoryTopicStore => s.networkTopics.NoEmpty) (fun _ op h => step_noEmpty h op)
    NestedMap.noEmpty_empty

/-- The observers kept are those the calls registered and did not take back. -/
theorem registered_iff (myGuid : Str) (ops : List StoreOp) (n : Str) :
    Registered ops n ↔ ∃ e ∈ ((new myGuid).run ops).observers, e.1 = n := by
  have h : ∀ ref, Run.Standing (fun op => ∃ handler, op = .observe n handler ref) (· = .unobserve n ref) ops ↔
      ∃ handler, (n, ⟨handler, ref⟩) ∈ ((new myGuid).run ops).observers := by
    intro ref
    induction ops using List.reverseRecOn with
    | nil => simp [Run.not_standing_nil, new]
    | append_singleton ops op ih => rw [Run.standing_concat, ih, run_concat, mem_observers_step]
  constructor
  · rintro ⟨ref, hs⟩
    obtain ⟨handler, hmem⟩ := (h ref).1 hs
    exact ⟨_, hmem, rfl⟩
  · rintro ⟨⟨_, handler, ref⟩, hmem, rfl⟩
    exact ⟨ref, (h ref).2 ⟨handler, hmem⟩⟩

theorem mem_getMissing_run (myGuid : Str) (ops : List StoreOp) (n : Str) :
    n ∈ ((new myGuid).run ops).getMissing ↔ Registered ops n ∧ ¬ ((new myGuid).run ops).Provided n := by
  rw [mem_getMissing, registered_iff myGuid, (run_noEmpty myGuid ops).mem_iff]
  rfl

theorem getMissing_eq_empty (h : ∀ n, n ∉ s.getMissing) : s.getMissing = ∅ :=
  ExtTreeSet.ext_mem fun n => by simpa using h n

/-- The missing set is that of the specific names, and polling ends once these are provided, exactly unless
an observer of all topics stands and no topic has the empty name. -/
theorem getMissing_exact_iff (myGuid : Str) (ops : List StoreOp) :
    let s := (new myGuid).run ops
    ((∀ n, n ∈ s.getMissing ↔ n ≠ [] ∧ Registered ops n ∧ ¬ s.Provided n) ∧
      (∀ d : Directory, d.topics = s → (∀ n, n ≠ [] → Registered ops n → s.Provided n) →
        d.queryMissingTopics true = { d with queryTimerActive := false })) ↔
      ¬ (Registered ops [] ∧ ¬ s.Provided []) := by
  intro s
  constructor
  · rintro ⟨hexact, -⟩ hempty
    exact ((hexact []).1 ((mem_getMissing_run myGuid ops []).2 hempty)).1 rfl
  · intro hempty
    have hexact : ∀ n, n ∈ s.getMissing ↔ n ≠ [] ∧ Registered ops n ∧ ¬ s.Provided n := by
      intro n
      rw [mem_getMissing_run]
      refine ⟨fun h => ⟨?_, h⟩, And.right⟩
      rintro rfl
      exact hempty h
    refine ⟨hexact, fun d hd hall => ?_⟩
    have hnone : d.topics.getMissing = ∅ := by
      rw [hd]
      refine getMissing_eq_empty fun n hn => ?_
      obtain ⟨hne, hreg, hmissing⟩ := (hexact n).1 hn
      exact hmissing (hall n hne hreg)
    simp [Directory.queryMissingTopics, hnone]

/-- One observer of all topics and nothing else: the empty name is searched for, again and again. -/
theorem getMissing_of_wildcard :
    let ops := [StoreOp.observe [] 0 "r".toList]
    let s := (new "n1".toList).run ops
    ¬ ((∀ n, n ∈ s.getMissing ↔ n ≠ [] ∧ Registered ops n ∧ ¬ s.Provided n) ∧
      (∀ d : Directory, d.topics = s → (∀ n, n ≠ [] → Registered ops n → s.Provided n) →
        d.queryMissingTopics true = { d with queryTimerActive := false })) := by
  rintro ops s ⟨hexact, -⟩
  have hmem : [] ∈ s.getMissing := by decide
  exact ((hexact []).1 hmem).1 rfl

end DirectoryTopicStore
end A17.Dispatch
