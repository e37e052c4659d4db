import Mathlib.Algebra.Order.Field.Rat
import Mathlib.Tactic.IntervalCases
import Mathlib.Tactic.NormNum
import A17.Lib.Run
import A17.Dispatch.Py.Polling

/-!
# The search timer of `dispatch.py`

At most one timeout is pending, `broadcast_timer` is that one, and no delay is to exceed
`broadcast_interval_max`. The first two hold in every run. The interval is compared with the maximum before it
is doubled: after a poll the delays are 0.1, 0.2, ..., 12.8 and then 25.6. `Overlong` is the firing that asks for it,
the eighth in a row that finds topics missing, and `timer_well_kept_iff` says that nothing else breaks the bound.
-/

namespace A17.Dispatch.Py

inductive PollOp where
  | queryPoll
  /-- The io loop runs the callback at the head of its queue. -/
  | runCallback
  /-- A pending timeout is due. -/
  | fire (timeout : Nat)
  /-- Whatever else happens to the topics and their observers. -/
  | change (topics : TopicMap)

/-- The directory, and how often its timeout has fired since the last `_start_polling`. -/
structure PollRun extends Polling where
  firings : Nat := 0

namespace PollRun

def new (myGuid : Str) (interfaceInfo : OwnAddress) : PollRun := { toPolling := .new myGuid interfaceInfo }

def step (s : PollRun) : PollOp → PollRun
  | .queryPoll => { s with toPolling := s.toPolling.queryPoll }
  | .runCallback =>
    match s.callbacks with
    | [] => s
    | .send _ :: callbacks => { s with callbacks }
    | .poll :: callbacks => { toPolling := { s.toPolling with callbacks }.startPolling, firings := 0 }
  | .fire timeout =>
    if s.timeouts.contains timeout then
      { toPolling := (s.toPolling.removeTimeout timeout).findMissingTopics, firings := s.firings + 1 }
    else s
  | .change topics => { s with topics }

structure WellKept (s : PollRun) : Prop where
  atMostOne : s.timeouts.length ≤ 1
  designated : ∀ timeout ∈ s.timeouts, s.broadcastTimer = some timeout
  capped : ∀ delay ∈ s.delays, delay ≤ Polling.broadcastIntervalMax

/-- A timeout fires for the eighth time in a row, with topics still missing. -/
def Overlong (s : PollRun) (op : PollOp) : Prop :=
  ∃ timeout ∈ s.timeouts, op = .fire timeout ∧ s.topics.missing ≠ [] ∧ 7 ≤ s.firings

structure Inv (s : PollRun) : Prop where
  wellKept : s.WellKept
  /-- The next delay, while a timeout is pending. -/
  interval : s.timeouts ≠ [] → s.broadcastInterval = 1 / 10 * 2 ^ (s.firings + 1) ∧ s.firings ≤ 7

variable {s : PollRun}

/-! ### One step -/

/-- Every pending timeout is `broadcast_timer`: without that one there is none. -/
theorem WellKept.removeTimeout_eq_nil (h : s.WellKept) {timeout : Nat} (ht : s.broadcastTimer = some timeout) :
    (s.toPolling.removeTimeout timeout).timeouts = [] := by
  refine List.filter_eq_nil_iff.2 fun t hmem => ?_
  have heq : some t = some timeout := (h.designated t hmem).symm.trans ht
  simpa using Option.some.inj heq

/-- A search from a state without timeouts, with the interval due after `firings` firings. -/
theorem Inv.of_findMissingTopics {p : Polling} {firings : Nat} (hnone : p.timeouts = [])
    (hcap : ∀ delay ∈ p.delays, delay ≤ Polling.broadcastIntervalMax)
    (hint : p.broadcastInterval = 1 / 10 * 2 ^ firings) (hle : p.topics.missing ≠ [] → firings ≤ 7) :
    Inv { toPolling := p.findMissingTopics, firings } := by
  by_cases hm : p.topics.missing = []
  · rw [Polling.findMissingTopics_of_none hm]
    exact ⟨⟨by simp [hnone], by simp [hnone], hcap⟩, fun h => absurd hnone h⟩
  · obtain ⟨groups, -, hfind⟩ := Polling.findMissingTopics_of_some hm
    have h7 := hle hm
    have hlt : p.broadcastInterval < Polling.broadcastIntervalMax := by
      rw [hint, Polling.broadcastIntervalMax]
      interval_cases firings <;> norm_num
    rw [hfind]
    refine ⟨⟨by simp [hnone], by simp [hnone], fun delay hd => ?_⟩, fun _ => ⟨?_, h7⟩⟩
    · rcases List.mem_append.1 hd with hd | hd
      · exact hcap delay hd
      · rw [List.mem_singleton.1 hd]
        exact hlt.le
    · dsimp only
      rw [if_pos hlt, hint, pow_succ, mul_assoc]

theorem Inv.step (h : s.Inv) (op : PollOp) (hop : ¬ s.Overlong op) : (s.step op).Inv := by
  cases op with
  | queryPoll => exact ⟨⟨h.wellKept.atMostOne, h.wellKept.designated, h.wellKept.capped⟩, h.interval⟩
  | change topics => exact ⟨⟨h.wellKept.atMostOne, h.wellKept.designated, h.wellKept.capped⟩, h.interval⟩
  | runCallback =>
    rw [PollRun.step]
    split
    · exact h
    · exact ⟨⟨h.wellKept.atMostOne, h.wellKept.designated, h.wellKept.capped⟩, h.interval⟩
    · rw [Polling.startPolling]
      refine Inv.of_findMissingTopics ?_ ?_ (by simp) (by simp)
      · split
        · next timeout ht => exact h.wellKept.removeTimeout_eq_nil ht
        · next ht =>
          refine List.eq_nil_iff_forall_not_mem.2 fun t hmem => ?_
          have heq : s.broadcastTimer = some t := h.wellKept.designated t hmem
          rw [show s.broadcastTimer = none from ht] at heq
          cases heq
      · split <;> exact h.wellKept.capped
  | fire timeout =>
    rw [PollRun.step]
    split
    swap
    · exact h
    next hc =>
    have ht : timeout ∈ s.timeouts := by simpa using hc
    obtain ⟨hint, h7⟩ := h.interval (List.ne_nil_of_mem ht)
    have hnone := h.wellKept.removeTimeout_eq_nil (h.wellKept.designated timeout ht)
    refine Inv.of_findMissingTopics hnone h.wellKept.capped hint fun hm => ?_
    by_contra hlt
    exact hop ⟨timeout, ht, rfl, hm, by omega⟩

/-- The firing that asks for a delay of 25.6 seconds. -/
theorem Inv.not_wellKept_step (h : s.Inv) {op : PollOp} (hop : s.Overlong op) : ¬ (s.step op).WellKept := by
  obtain ⟨timeout, ht, rfl, hm, h7⟩ := hop
  intro hkept
  obtain ⟨hint, hle⟩ := h.interval (List.ne_nil_of_mem ht)
  obtain ⟨groups, -, hfind⟩ := Polling.findMissingTopics_of_some (p := s.toPolling.removeTimeout timeout) hm
  have hmem : s.broadcastInterval ∈ (s.step (.fire timeout)).delays := by
    rw [PollRun.step, if_pos (by simpa using ht), hfind]
    exact List.mem_append_right _ (List.mem_singleton_self _)
  have hcap := hkept.capped _ hmem
  have hseven : s.firings = 7 := le_antisymm hle h7
  rw [hint, hseven, Polling.broadcastIntervalMax] at hcap
  norm_num at hcap

/-! ### Runs -/

theorem Inv.of_new (myGuid : Str) (interfaceInfo : OwnAddress) : (new myGuid interfaceInfo).Inv := by
  refine ⟨⟨Nat.zero_le 1, ?_, ?_⟩, fun h => absurd rfl h⟩
  · intro timeout h
    cases h
  · intro delay h
    cases h

/-- In a run the timer is well kept in every state exactly if no timeout fires for the eighth time in a row
with topics missing. -/
theorem timer_well_kept_iff (myGuid : Str) (interfaceInfo : OwnAddress) (ops : List PollOp) :
    Run.States step WellKept (new myGuid interfaceInfo) ops ↔
      Run.Steps step (fun s op => ¬ s.Overlong op) (new myGuid interfaceInfo) ops :=
  Run.states_iff_steps (fun _ h => h.wellKept) (fun _ op h hop => h.step op hop)
    (fun _ _ h hop => h.not_wellKept_step (not_not.1 hop)) (Inv.of_new myGuid interfaceInfo)

/-- A topic that nobody provides, searched for long enough. -/
theorem delay_exceeds_max :
    ¬ Run.States step WellKept (new "n1".toList ⟨0x0a000000#32, 0xff000000#32⟩)
      ([.change ((TopicMap.new "n1".toList).observe "t".toList 0 "r".toList).1, .queryPoll, .runCallback] ++
        (List.range 8).map PollOp.fire) := by
  intro h
  have hcap := h.last.capped (128 / 5) (by decide +kernel)
  rw [Polling.broadcastIntervalMax] at hcap
  norm_num at hcap

end PollRun
end A17.Dispatch.Py
