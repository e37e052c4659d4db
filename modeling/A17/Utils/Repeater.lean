import A17.Lib.Run
import A17.Lib.WaitableTimer
import Mathlib.Data.Int.Order.Basic
import Mathlib.Data.List.Chain
import Mathlib.Tactic.Ring

/-!
# The repeater

`Repeater` calls an operation on a fixed interval: the handler of its timer (`repeat`) runs the operation and sets the
timer to the next tick, or to one interval from now if it is late by more than half of one. The operation may itself
start, stop and reset the repeater while time passes. A restart while the last expiry is still queued leaves two waits
that both succeed; `oneWait_iff` says that nothing else does, and without it the calls keep their distance
(`calls_spaced`) and the ticks their phase (`calls_on_schedule`).
-/

namespace A17.Utils

structure Repeater where
  isRunning : Bool := false
  timer : WaitableTimer Unit
  interval : Int
deriving DecidableEq

namespace Repeater

def start (r : Repeater) (now : Int) : Repeater :=
  if r.isRunning then r
  else { r with timer := (r.timer.expiresAt (now + r.interval)).asyncWait (), isRunning := true }

def new (now interval : Int) (autoStart : Bool) : Repeater :=
  let r : Repeater := { timer := { expiry := now + interval }, interval }
  if autoStart then r.start now else r

def stop (r : Repeater) : Repeater := { r with timer := r.timer.cancel, isRunning := false }

def setInterval (r : Repeater) (now interval : Int) : Repeater :=
  let r := { r with interval }
  if r.isRunning then r.stop.start now else r

/-- `repeat` once the operation that began at `start` has returned. -/
def operated (r : Repeater) (start : Int) (again : Bool) : Repeater :=
  if again then
    let expired := r.timer.expiry
    let diff := start - expired
    let bump := diff > r.interval.tdiv 2
    let from' := if bump then start else expired
    { r with timer := (r.timer.expiresAt (from' + r.interval)).asyncWait () }
  else { r with isRunning := false }

/-- What the clients and the operation do, and the passing of time. -/
inductive Action where
  | start
  | stop
  | setInterval (interval : Int)
  | pass (time : Nat)
deriving DecidableEq

/-- A turn of the event loop: a client's, the clock being looked at, or the `i`-th queued completion being handled, with
what the operation does if it is called and what it returns. -/
inductive Event where
  | act (a : Action)
  | expire
  | complete (i : Nat) (operation : List Action) (again : Bool)
deriving DecidableEq

def Action.AtLeast (m : Int) : Action → Prop
  | .setInterval interval => m ≤ interval
  | _ => True

/-- No interval below `m` is set. -/
def Event.AtLeast (m : Int) : Event → Prop
  | .act a => a.AtLeast m
  | .expire => True
  | .complete _ operation _ => ∀ a ∈ operation, a.AtLeast m

/-- The operation takes its time and asks to be called again; the clients do nothing. -/
def Event.Plain : Event → Prop
  | .act a => ∃ time, a = .pass time
  | .expire => True
  | .complete _ operation again => again = true ∧ ∀ a ∈ operation, ∃ time, a = .pass time

/-- The loop: the repeater, the clock, and when the operation was called. -/
structure Loop where
  now : Int
  repeater : Repeater
  calls : List Int := []
deriving DecidableEq

namespace Loop

def act (l : Loop) : Action → Loop
  | .start => { l with repeater := l.repeater.start l.now }
  | .stop => { l with repeater := l.repeater.stop }
  | .setInterval interval => { l with repeater := l.repeater.setInterval l.now interval }
  | .pass time => { l with now := l.now + time }

/-- `repeat`; `ec` is set unless `success`. -/
def «repeat» (l : Loop) (success : Bool) (operation : List Action) (again : Bool) : Loop :=
  if success && l.repeater.isRunning then
    let start := l.now
    let l := operation.foldl act { l with calls := l.calls ++ [start] }
    { l with repeater := l.repeater.operated start again }
  else l

def step (l : Loop) : Event → Loop
  | .act a => l.act a
  | .expire => { l with repeater.timer := l.repeater.timer.expire l.now }
  | .complete i operation again =>
    match l.repeater.timer.take i with
    | none => l
    | some ((_, success), timer) => { l with repeater.timer := timer }.repeat success operation again

def new (now interval : Int) (autoStart : Bool) : Loop :=
  { now, repeater := Repeater.new now interval autoStart }

/-- The action sets the timer from a state that is stopped, if only for the moment. -/
def Restarts (l : Loop) : Action → Prop
  | .start => l.repeater.isRunning = false
  | .setInterval _ => l.repeater.isRunning = true
  | _ => False

/-- The event restarts the timer while an expiry is queued. -/
def Doubles (l : Loop) : Event → Prop
  | .act a => l.repeater.timer.fired ≠ [] ∧ l.Restarts a
  | _ => False

/-- The timer fires no earlier than its expiry. -/
def Due (l : Loop) : Prop := l.repeater.timer.fired ≠ [] → l.repeater.timer.expiry ≤ l.now

/-- While it runs, the repeater waits for one expiry. -/
def OneWait (l : Loop) : Prop := l.repeater.isRunning = true → l.repeater.timer.live.length = 1

variable {l : Loop}

/-! ### One action -/

theorem act_calls (a : Action) : (l.act a).calls = l.calls := by cases a <;> rfl

theorem le_act_now (a : Action) : l.now ≤ (l.act a).now := by
  cases a with
  | pass time =>
    have : l.now ≤ l.now + (time : Int) := by omega
    exact this
  | _ => exact le_rfl

theorem start_fired (r : Repeater) (now : Int) : (r.start now).timer.fired = r.timer.fired := by
  unfold Repeater.start
  split
  · rfl
  · simp only [WaitableTimer.asyncWait_fired, WaitableTimer.expiresAt_fired]

theorem act_fired (a : Action) : (l.act a).repeater.timer.fired = l.repeater.timer.fired := by
  cases a with
  | start => exact start_fired ..
  | stop => exact WaitableTimer.cancel_fired
  | pass time => rfl
  | setInterval interval =>
    unfold act Repeater.setInterval
    dsimp only
    split
    · exact (start_fired ..).trans WaitableTimer.cancel_fired
    · rfl

/-- A restart sets the timer to one interval from now; what is no restart cancels at most. -/
theorem act_cases (a : Action) :
    (l.Restarts a ∧ (l.act a).repeater.isRunning = true ∧
      (l.act a).repeater.timer.expiry = l.now + (l.act a).repeater.interval ∧
      (l.act a).repeater.timer.live.length = l.repeater.timer.fired.length + 1) ∨
    (¬ l.Restarts a ∧ (l.act a).repeater.timer.expiry = l.repeater.timer.expiry ∧
      (((l.act a).repeater.isRunning = false ∧ (l.act a).repeater.timer.live = l.repeater.timer.fired) ∨
        ((l.act a).repeater.isRunning = l.repeater.isRunning ∧
          (l.act a).repeater.timer.live = l.repeater.timer.live))) := by
  cases a with
  | pass time => exact .inr ⟨id, rfl, .inr ⟨rfl, rfl⟩⟩
  | stop => exact .inr ⟨id, rfl, .inl ⟨rfl, WaitableTimer.cancel_live⟩⟩
  | start =>
    unfold act Repeater.start
    cases hrun : l.repeater.isRunning with
    | true => exact .inr ⟨by simp [Restarts, hrun], rfl, .inr ⟨hrun, rfl⟩⟩
    | false => exact .inl ⟨hrun, rfl, rfl, (WaitableTimer.rearm_live ..).length_eq⟩
  | setInterval interval =>
    cases hrun : l.repeater.isRunning with
    | false => exact .inr ⟨by simp [Restarts, hrun], by simp [act, Repeater.setInterval, hrun], .inr (by
        simp [act, Repeater.setInterval, hrun])⟩
    | true =>
      have hact : l.act (.setInterval interval) =
          { l with repeater := ({ l.repeater with interval } : Repeater).stop.start l.now } := by
        simp [act, Repeater.setInterval, hrun]
      rw [hact]
      refine .inl ⟨hrun, rfl, rfl, ?_⟩
      have h := (WaitableTimer.rearm_live (t := l.repeater.timer.cancel) (l.now + interval) ()).length_eq
      rwa [WaitableTimer.cancel_fired] at h

/-! ### One completion -/

/-- The operation is called at the present moment. -/
def call (l : Loop) (timer : WaitableTimer Unit) (operation : List Action) (again : Bool) : Loop :=
  let l' := operation.foldl act { l with repeater.timer := timer, calls := l.calls ++ [l.now] }
  { l' with repeater := l'.repeater.operated l.now again }

/-- Handling a completion drops it, or calls the operation for an expiry. -/
theorem complete_cases (l : Loop) (i : Nat) (operation : List Action) (again : Bool) :
    (∃ timer : WaitableTimer Unit, l.step (.complete i operation again) = { l with repeater.timer := timer } ∧
      timer.expiry = l.repeater.timer.expiry ∧ timer.live.length ≤ l.repeater.timer.live.length ∧
      timer.fired.length ≤ l.repeater.timer.fired.length ∧
      (l.repeater.isRunning = true → timer.live.length = l.repeater.timer.live.length)) ∨
    (∃ timer : WaitableTimer Unit, l.step (.complete i operation again) = l.call timer operation again ∧
      timer.expiry = l.repeater.timer.expiry ∧ timer.live.length + 1 = l.repeater.timer.live.length ∧
      l.repeater.timer.fired ≠ [] ∧ l.repeater.isRunning = true) := by
  cases htake : l.repeater.timer.take i with
  | none => exact .inl ⟨l.repeater.timer, by simp [step, htake], rfl, le_rfl, le_rfl, fun _ => rfl⟩
  | some c =>
    obtain ⟨⟨⟨⟩, success⟩, timer⟩ := c
    obtain ⟨hexp, hlive⟩ := WaitableTimer.take_eq_some htake
    have hfired := WaitableTimer.fired_of_take htake
    have hlive' := hlive.length_eq
    have hfired' := hfired.length_eq
    cases success with
    | false =>
      exact .inl ⟨timer, by simp [step, htake, Loop.repeat], hexp, hlive'.ge, hfired'.ge, fun _ => hlive'.symm⟩
    | true =>
      rw [if_pos rfl, List.length_cons] at hlive' hfired'
      cases hrun : l.repeater.isRunning with
      | false =>
        exact .inl ⟨timer, by simp [step, htake, Loop.repeat, hrun], hexp, by omega, by omega, fun htrue => by
          cases htrue⟩
      | true =>
        refine .inr ⟨timer, by simp [step, htake, Loop.repeat, hrun, call], hexp, hlive'.symm, fun hnil => ?_, rfl⟩
        rw [hnil, List.length_nil] at hfired'
        omega

/-! ### One wait -/

/-- At most one wait can still succeed, and exactly one while the repeater runs. -/
structure Single (l : Loop) : Prop where
  le_one : l.repeater.timer.live.length ≤ 1
  running : l.OneWait

theorem Single.fired_le (h : l.Single) : l.repeater.timer.fired.length ≤ 1 :=
  WaitableTimer.fired_sublist.length_le.trans h.le_one

theorem Single.act (h : l.Single) {a : Action} (hq : l.repeater.timer.fired ≠ [] → ¬ l.Restarts a) :
    (l.act a).Single := by
  rcases act_cases (l := l) a with ⟨hr, hrun, -, hlen⟩ | ⟨-, -, ⟨hrun, hlive⟩ | ⟨hrun, hlive⟩⟩
  · have hnil : l.repeater.timer.fired = [] := by
      by_contra hne
      exact hq hne hr
    rw [hnil, List.length_nil] at hlen
    exact ⟨by omega, fun _ => hlen⟩
  · refine ⟨?_, fun htrue => ?_⟩
    · rw [hlive]
      exact h.fired_le
    · rw [hrun] at htrue
      cases htrue
  · refine ⟨?_, fun htrue => ?_⟩
    · rw [hlive]
      exact h.le_one
    · rw [hlive]
      exact h.running (hrun ▸ htrue)

/-- While the operation runs no expiry is queued. -/
theorem operation_live (operation : List Action) (hf : l.repeater.timer.fired = [])
    (h : l.repeater.timer.live.length ≤ 1) :
    (operation.foldl act l).repeater.timer.fired = [] ∧
      (operation.foldl act l).repeater.timer.live.length ≤ 1 := by
  refine Run.invariant (I := fun l : Loop => l.repeater.timer.fired = [] ∧ l.repeater.timer.live.length ≤ 1) ?_ ⟨hf, h⟩
  rintro l a ⟨hf, h⟩
  refine ⟨(act_fired a).trans hf, ?_⟩
  rcases act_cases (l := l) a with ⟨-, -, -, hlen⟩ | ⟨-, -, ⟨-, hlive⟩ | ⟨-, hlive⟩⟩
  · rw [hlen, hf]
    rfl
  · rw [hlive, hf]
    exact Nat.zero_le _
  · rwa [hlive]

theorem operated_again (r : Repeater) (start : Int) :
    (r.operated start true).timer.live.length = r.timer.fired.length + 1 :=
  (WaitableTimer.rearm_live ..).length_eq

theorem operated_expiry (r : Repeater) (start : Int) :
    (r.operated start true).timer.expiry =
      (if start - r.timer.expiry > r.interval.tdiv 2 then start else r.timer.expiry) + r.interval := rfl

theorem operated_fired (r : Repeater) (start : Int) (again : Bool) :
    (r.operated start again).timer.fired = r.timer.fired := by
  unfold Repeater.operated
  split
  · simp only [WaitableTimer.asyncWait_fired, WaitableTimer.expiresAt_fired]
  · rfl

theorem Single.call {timer : WaitableTimer Unit} (operation : List Action) (again : Bool) (hlive : timer.live = []) :
    (l.call timer operation again).Single := by
  have hfired : timer.fired = [] := List.sublist_nil.1 (hlive ▸ WaitableTimer.fired_sublist)
  obtain ⟨hf, hle⟩ := operation_live operation
    (l := { l with repeater.timer := timer, calls := l.calls ++ [l.now] }) hfired (by simp [hlive])
  cases again with
  | false =>
    refine ⟨hle, fun htrue => ?_⟩
    cases htrue
  | true =>
    have hone := operated_again (operation.foldl Loop.act
      { l with repeater.timer := timer, calls := l.calls ++ [l.now] }).repeater l.now
    rw [hf, List.length_nil] at hone
    exact ⟨hone.le, fun _ => hone⟩

theorem Single.step (h : l.Single) {e : Event} (hq : ¬ l.Doubles e) : (l.step e).Single := by
  cases e with
  | act a => exact h.act fun hne hr => hq ⟨hne, hr⟩
  | expire =>
    have hlen := (l.repeater.timer.expire_live l.now).length_eq
    exact ⟨hlen.trans_le h.le_one, fun htrue => hlen.trans (h.running htrue)⟩
  | complete i operation again =>
    rcases complete_cases l i operation again with
      ⟨timer, heq, -, hle, -, hrun⟩ | ⟨timer, heq, -, hlen, -, -⟩
    · rw [heq]
      exact ⟨hle.trans h.le_one, fun htrue => (hrun htrue).trans (h.running htrue)⟩
    · -- the wait that succeeded was the only one
      rw [heq]
      have := h.le_one
      exact Single.call operation again (List.length_eq_zero_iff.1 (by omega))

theorem single_new (now interval : Int) (autoStart : Bool) : (Loop.new now interval autoStart).Single := by
  cases autoStart with
  | false => exact ⟨Nat.zero_le _, fun htrue => by cases htrue⟩
  | true => exact ⟨le_rfl, fun _ => rfl⟩

theorem not_oneWait_of_doubles {e : Event} (h : l.Doubles e) : ¬ (l.step e).OneWait := by
  cases e with
  | act a =>
    obtain ⟨hne, hr⟩ := h
    rcases act_cases (l := l) a with ⟨-, hrun, -, hlen⟩ | ⟨hnot, -⟩
    · intro hone
      have := List.length_pos_iff.2 hne
      have := (hlen.symm.trans (hone hrun) : l.repeater.timer.fired.length + 1 = 1)
      omega
    · exact absurd hr hnot
  | _ => exact h.elim

/-- While it runs, the repeater waits for exactly one expiry, unless it is restarted while one is queued. -/
theorem oneWait_iff (now interval : Int) (autoStart : Bool) (events : List Event) :
    Run.States step OneWait (Loop.new now interval autoStart) events ↔
      Run.Steps step (fun l e => ¬ l.Doubles e) (Loop.new now interval autoStart) events :=
  Run.states_iff_steps (fun _ => Single.running) (fun _ _ h hq => h.step hq)
    (fun _ _ _ hd => not_oneWait_of_doubles (not_not.1 hd)) (single_new ..)

/-! ### The distance of the calls -/

theorem act_interval {m : Int} (h : m ≤ l.repeater.interval) {a : Action} (ha : a.AtLeast m) :
    m ≤ (l.act a).repeater.interval := by
  cases a with
  | stop => exact h
  | pass time => exact h
  | start =>
    unfold act Repeater.start
    dsimp only
    split <;> exact h
  | setInterval interval =>
    unfold act Repeater.setInterval Repeater.start
    dsimp only
    split
    · split <;> exact ha
    · exact ha

/-- The next expiry is more than half an interval away from the last call. -/
structure Paced (m : Int) (l : Loop) : Prop where
  interval : m ≤ l.repeater.interval
  past : ∀ c ∈ l.calls.getLast?, c ≤ l.now
  next : ∀ c ∈ l.calls.getLast?, l.repeater.timer.live ≠ [] → c + (m - m / 2) ≤ l.repeater.timer.expiry

theorem Paced.act {m : Int} (hm : 0 ≤ m) (h : l.Paced m) {a : Action} (ha : a.AtLeast m) : (l.act a).Paced m := by
  refine ⟨act_interval h.interval ha, fun c hc => ?_, fun c hc hne => ?_⟩
  · rw [act_calls] at hc
    exact (h.past c hc).trans (le_act_now a)
  · rw [act_calls] at hc
    rcases act_cases (l := l) a with ⟨-, -, hexp, -⟩ | ⟨-, hexp, ⟨-, hlive⟩ | ⟨-, hlive⟩⟩
    · rw [hexp]
      have := h.past c hc
      have := act_interval h.interval ha
      omega
    · rw [hexp]
      refine h.next c hc fun hnil => hne ?_
      rw [hlive]
      exact List.sublist_nil.1 (hnil ▸ WaitableTimer.fired_sublist)
    · rw [hexp]
      exact h.next c hc (hlive ▸ hne)

theorem Paced.operation {m : Int} (hm : 0 ≤ m) {operation : List Action} (h : l.Paced m)
    (ha : ∀ a ∈ operation, a.AtLeast m) :
    (operation.foldl Loop.act l).Paced m ∧ (operation.foldl Loop.act l).calls = l.calls := by
  induction operation generalizing l with
  | nil => exact ⟨h, rfl⟩
  | cons a operation ih =>
    obtain ⟨hpaced, hcalls⟩ := ih (h.act hm (ha a (by simp))) fun b hb => ha b (by simp [hb])
    exact ⟨hpaced, hcalls.trans (act_calls a)⟩

/-- Whether it is bumped or not, the next tick keeps its distance from the call at `start`. -/
theorem Paced.operated {m start : Int} (hm : 0 ≤ m) (h : l.Paced m) (hlast : l.calls.getLast? = some start)
    (again : Bool) : Paced m { l with repeater := l.repeater.operated start again } := by
  cases again with
  | false => exact ⟨h.interval, h.past, h.next⟩
  | true =>
    refine ⟨h.interval, h.past, fun c hc _ => ?_⟩
    obtain rfl : start = c := by
      rw [hlast] at hc
      exact Option.some.inj hc
    have hle := h.interval
    have hhalf : l.repeater.interval.tdiv 2 = l.repeater.interval / 2 := Int.tdiv_eq_ediv_of_nonneg (hm.trans hle)
    show start + (m - m / 2) ≤ (l.repeater.operated start true).timer.expiry
    rw [operated_expiry, hhalf]
    split <;> omega

theorem Due.act (h : l.Due) {a : Action} (hq : l.repeater.timer.fired ≠ [] → ¬ l.Restarts a) : (l.act a).Due := by
  intro hne
  rw [act_fired] at hne
  rcases act_cases (l := l) a with ⟨hr, -⟩ | ⟨-, hexp, -⟩
  · exact absurd hr (hq hne)
  · rw [hexp]
    exact (h hne).trans (le_act_now a)

theorem Due.expire (h : l.Due) : (l.step .expire).Due := by
  intro hne
  show (l.repeater.timer.expire l.now).expiry ≤ l.now
  rw [WaitableTimer.expire_expiry]
  by_contra hlt
  have heq := WaitableTimer.expire_of_lt (not_le.1 hlt)
  refine hlt (h ?_)
  rwa [← heq]

/-- What a run keeps that never restarts the repeater while an expiry is queued. -/
structure Spaced (m : Int) (l : Loop) : Prop where
  single : l.Single
  due : l.Due
  paced : l.Paced m
  chain : l.calls.IsChain fun c c' => c + (m - m / 2) ≤ c'

theorem Spaced.call {m : Int} (hm : 0 ≤ m) (h : l.Spaced m) {timer : WaitableTimer Unit} (hlive : timer.live = [])
    (hfire : l.repeater.timer.fired ≠ []) {operation : List Action} (again : Bool)
    (ha : ∀ a ∈ operation, a.AtLeast m) : (l.call timer operation again).Spaced m := by
  have hfired : timer.fired = [] := List.sublist_nil.1 (hlive ▸ WaitableTimer.fired_sublist)
  have hlast : (l.calls ++ [l.now]).getLast? = some l.now := by simp
  have hpaced : Paced m { l with repeater.timer := timer, calls := l.calls ++ [l.now] } := by
    refine ⟨h.paced.interval, fun c hc => ?_, fun c hc hne => absurd hlive hne⟩
    obtain rfl : l.now = c := Option.some.inj (hlast ▸ hc)
    exact le_rfl
  obtain ⟨hpaced', hcalls⟩ := hpaced.operation hm ha
  refine ⟨Single.call operation again hlive, fun hne => ?_, hpaced'.operated hm (hcalls ▸ hlast) again, ?_⟩
  · -- nothing is queued while the operation runs
    have hf := (operation_live operation
      (l := { l with repeater.timer := timer, calls := l.calls ++ [l.now] }) hfired (by simp [hlive])).1
    exact absurd ((operated_fired ..).trans hf) hne
  · show List.IsChain _ (operation.foldl Loop.act _).calls
    rw [hcalls]
    refine List.isChain_append.2 ⟨h.chain, List.isChain_singleton _, fun c hc c' hc' => ?_⟩
    obtain rfl : l.now = c' := by simpa using hc'
    refine (h.paced.next c hc ?_).trans (h.due hfire)
    intro hnil
    exact hfire (List.sublist_nil.1 (hnil ▸ WaitableTimer.fired_sublist))

theorem Spaced.step {m : Int} (hm : 0 ≤ m) (h : l.Spaced m) {e : Event} (hq : ¬ l.Doubles e) (he : e.AtLeast m) :
    (l.step e).Spaced m := by
  have hsingle := h.single.step hq
  cases e with
  | act a =>
    refine ⟨hsingle, h.due.act fun hne hr => hq ⟨hne, hr⟩, h.paced.act hm he, ?_⟩
    show List.IsChain _ (l.act a).calls
    rw [act_calls]
    exact h.chain
  | expire =>
    refine ⟨hsingle, h.due.expire, ⟨h.paced.interval, h.paced.past, fun c hc hne => ?_⟩, h.chain⟩
    show c + (m - m / 2) ≤ (l.repeater.timer.expire l.now).expiry
    rw [WaitableTimer.expire_expiry]
    refine h.paced.next c hc fun hnil => hne ?_
    have hp := l.repeater.timer.expire_live l.now
    rwa [hnil, List.perm_nil] at hp
  | complete i operation again =>
    rcases complete_cases l i operation again with
      ⟨timer, heq, hexp, hlive, hfired, -⟩ | ⟨timer, heq, -, hlen, hfire, -⟩
    · rw [heq] at hsingle ⊢
      refine ⟨hsingle, fun hne => ?_, ⟨h.paced.interval, h.paced.past, fun c hc hne => ?_⟩, h.chain⟩
      · show timer.expiry ≤ l.now
        rw [hexp]
        exact h.due (List.length_pos_iff.1 ((List.length_pos_iff.2 hne).trans_le hfired))
      · show c + (m - m / 2) ≤ timer.expiry
        rw [hexp]
        exact h.paced.next c hc (List.length_pos_iff.1 ((List.length_pos_iff.2 hne).trans_le hlive))
    · rw [heq]
      have := h.single.le_one
      exact h.call hm (List.length_eq_zero_iff.1 (by omega)) hfire again he

theorem spaced_new {m now interval : Int} (hinterval : m ≤ interval) (autoStart : Bool) :
    (Loop.new now interval autoStart).Spaced m := by
  refine ⟨single_new .., fun hne => ?_, ⟨?_, ?_, ?_⟩, List.IsChain.nil⟩
  · cases autoStart <;> exact absurd rfl hne
  · cases autoStart <;> exact hinterval
  · rintro c hc
    cases hc
  · rintro c hc
    cases hc

/-- Two calls are at least half of the smallest interval apart. -/
theorem calls_spaced {m now interval : Int} (hm : 0 ≤ m) (hinterval : m ≤ interval) (autoStart : Bool)
    {events : List Event}
    (h : Run.Steps step (fun l e => ¬ l.Doubles e ∧ e.AtLeast m) (Loop.new now interval autoStart) events) :
    (events.foldl step (Loop.new now interval autoStart)).calls.IsChain fun c c' => c + (m - m / 2) ≤ c' :=
  (h.invariant (fun _ _ hs hq => hs.step hm hq.1 hq.2) (spaced_new hinterval autoStart)).chain

theorem calls_spaced_late :
    let events := [.act (.pass 10), .expire, .complete 0 [.pass 2] true, .act (.pass 14), .expire, .complete 0 [] true]
    (events.foldl step (Loop.new 0 10 true)).calls = [10, 26] ∧
      (events.foldl step (Loop.new 0 10 true)).calls.IsChain fun c c' => c + (10 - 10 / 2) ≤ c' :=
  ⟨by decide, calls_spaced (by decide) (by decide) true (by
    simp [Run.steps_cons, Run.steps_nil, Doubles, Restarts, Event.AtLeast, Action.AtLeast])⟩

/-! ### The phase of the ticks -/

/-- The `k`-th tick after `t`, `d` apart. -/
def tick (t d : Int) (k : Nat) : Int := t + (k + 1) * d

theorem tick_succ (t d : Int) (k : Nat) : tick t d (k + 1) = tick t d k + d := by
  unfold tick
  push_cast
  ring

/-- The calls so far come at most half an interval after their ticks. -/
def Prompt (t d : Int) (l : Loop) : Prop := ∀ k c, l.calls[k]? = some c → c ≤ tick t d k + d.tdiv 2

/-- No call precedes its tick, and while the calls are prompt the timer is set to a tick. -/
structure OnSchedule (t d : Int) (l : Loop) : Prop where
  running : l.repeater.isRunning = true
  interval : l.repeater.interval = d
  single : l.Single
  due : l.Due
  early : tick t d l.calls.length ≤ l.repeater.timer.expiry
  calls : ∀ k c, l.calls[k]? = some c → tick t d k ≤ c
  exact : l.Prompt t d → l.repeater.timer.expiry = tick t d l.calls.length

theorem pass_operation {operation : List Action} (h : ∀ a ∈ operation, ∃ time, a = .pass time) :
    ∃ now, operation.foldl act l = { l with now } := by
  induction operation generalizing l with
  | nil => exact ⟨l.now, rfl⟩
  | cons a operation ih =>
    obtain ⟨time, rfl⟩ := h a (by simp)
    obtain ⟨now, heq⟩ := ih (l := l.act (.pass time)) fun b hb => h b (by simp [hb])
    exact ⟨now, heq⟩

theorem OnSchedule.call {t d : Int} (h : l.OnSchedule t d) {timer : WaitableTimer Unit}
    (hexp : timer.expiry = l.repeater.timer.expiry) (hlive : timer.live = []) (hfire : l.repeater.timer.fired ≠ [])
    {operation : List Action} (hpass : ∀ a ∈ operation, ∃ time, a = .pass time) :
    (l.call timer operation true).OnSchedule t d := by
  have hsingle := Single.call (l := l) operation true hlive
  have hfired : timer.fired = [] := List.sublist_nil.1 (hlive ▸ WaitableTimer.fired_sublist)
  have hdue := h.due hfire
  have hearly := h.early
  obtain ⟨now, heq⟩ := pass_operation (l := { l with repeater.timer := timer, calls := l.calls ++ [l.now] }) hpass
  unfold Loop.call at hsingle ⊢
  rw [heq] at hsingle ⊢
  have hexpiry : (({ l.repeater with timer } : Repeater).operated l.now true).timer.expiry =
      (if l.now - l.repeater.timer.expiry > d.tdiv 2 then l.now else l.repeater.timer.expiry) + d := by
    rw [operated_expiry, ← h.interval, ← hexp]
  refine ⟨h.running, h.interval, hsingle, ?_, ?_, ?_, ?_⟩
  · intro hne
    exact absurd ((operated_fired ..).trans hfired) hne
  · show tick t d (l.calls ++ [l.now]).length ≤
      (({ l.repeater with timer } : Repeater).operated l.now true).timer.expiry
    rw [hexpiry, List.length_append, List.length_singleton, tick_succ]
    split <;> omega
  · intro k c hc
    replace hc : (l.calls ++ [l.now])[k]? = some c := hc
    rcases lt_or_ge k l.calls.length with hlt | hge
    · rw [List.getElem?_append_left hlt] at hc
      exact h.calls k c hc
    · obtain ⟨hk, rfl⟩ := List.getElem?_eq_some_iff.1 hc
      obtain rfl : k = l.calls.length := by simp at hk; omega
      simpa using hearly.trans hdue
  · intro hprompt
    show (({ l.repeater with timer } : Repeater).operated l.now true).timer.expiry =
      tick t d (l.calls ++ [l.now]).length
    -- the calls before this one were prompt, so that it was due at its tick
    have hexact := h.exact fun k c hc => hprompt k c (by
      show (l.calls ++ [l.now])[k]? = some c
      rw [List.getElem?_append_left (List.getElem?_eq_some_iff.1 hc).1]
      exact hc)
    have hnow := hprompt l.calls.length l.now (by simp)
    rw [hexpiry, List.length_append, List.length_singleton, tick_succ, ← hexact, if_neg (by omega)]

theorem OnSchedule.step {t d : Int} (h : l.OnSchedule t d) {e : Event} (he : e.Plain) : (l.step e).OnSchedule t d := by
  cases e with
  | act a =>
    obtain ⟨time, rfl⟩ := he
    refine ⟨h.running, h.interval, h.single.act (a := .pass time) fun _ => id, h.due.act (a := .pass time) fun _ => id,
      h.early, h.calls, h.exact⟩
  | expire =>
    refine ⟨h.running, h.interval, h.single.step id, h.due.expire, ?_, h.calls, fun hprompt => ?_⟩
    · show _ ≤ (l.repeater.timer.expire l.now).expiry
      rw [WaitableTimer.expire_expiry]
      exact h.early
    · show (l.repeater.timer.expire l.now).expiry = _
      rw [WaitableTimer.expire_expiry]
      exact h.exact hprompt
  | complete i operation again =>
    obtain ⟨rfl, hpass⟩ := he
    have hsingle := h.single.step (e := .complete i operation true) id
    rcases complete_cases l i operation true with
      ⟨timer, heq, hexp, -, hfired, -⟩ | ⟨timer, heq, hexp, hlen, hfire, -⟩
    · rw [heq] at hsingle ⊢
      refine ⟨h.running, h.interval, hsingle, fun hne => ?_, hexp ▸ h.early, h.calls, fun hprompt => ?_⟩
      · show timer.expiry ≤ l.now
        rw [hexp]
        exact h.due (List.length_pos_iff.1 ((List.length_pos_iff.2 hne).trans_le hfired))
      · exact hexp.trans (h.exact hprompt)
    · rw [heq]
      have := h.single.le_one
      exact h.call hexp (List.length_eq_zero_iff.1 (by omega)) hfire hpass

/-- The ticks do not drift: no call precedes its tick, and while every call comes at most half an interval late the
timer is set to the next tick. -/
theorem calls_on_schedule (now interval : Int) {events : List Event} (h : ∀ e ∈ events, e.Plain) :
    let l := events.foldl step (Loop.new now interval true)
    (∀ k c, l.calls[k]? = some c → tick now interval k ≤ c) ∧
      (l.Prompt now interval → l.repeater.timer.expiry = tick now interval l.calls.length) := by
  have hnew : (Loop.new now interval true).OnSchedule now interval := by
    have htick : tick now interval 0 = now + interval := by simp [tick]
    refine ⟨rfl, rfl, single_new .., fun hne => absurd rfl hne, htick.le, ?_, fun _ => htick.symm⟩
    rintro k c hc
    cases hc
  have hlast : (events.foldl step (Loop.new now interval true)).OnSchedule now interval := by
    refine Run.Steps.invariant (Q := fun _ e => e.Plain) (fun _ _ hs he => hs.step he) ?_ hnew
    rintro pre e ⟨post, rfl⟩
    exact h e (by simp)
  exact ⟨hlast.calls, hlast.exact⟩

theorem calls_on_schedule_late :
    let events := [.act (.pass 12), .expire, .complete 0 [.pass 2] true]
    let l := events.foldl step (Loop.new 0 10 true)
    l.calls = [12] ∧ (l.Prompt 0 10 → l.repeater.timer.expiry = tick 0 10 1) :=
  ⟨by decide, (calls_on_schedule 0 10 (by simp [Event.Plain])).2⟩

end Loop
end Repeater
end A17.Utils
