import A17.Lib.DeadlineTimer
import Mathlib.Order.Basic
import Mathlib.Algebra.Order.Ring.Int

/-!
# A timer with a clock

`boost::asio::basic_waitable_timer` of an event loop: a `DeadlineTimer` that knows the moment at which it expires. The
loop fires it when it finds that the moment has come (`expire`).
-/

structure WaitableTimer (α : Type) where
  expiry : Int
  queue : DeadlineTimer α := {}
deriving DecidableEq

namespace WaitableTimer
variable {α : Type} (t : WaitableTimer α)

def cancel : WaitableTimer α := { t with queue := t.queue.cancel }

def expiresAt (expiry : Int) : WaitableTimer α := { t.cancel with expiry }

def asyncWait (wait : α) : WaitableTimer α := { t with queue := t.queue.asyncWait wait }

/-- The loop looks at the clock. -/
def expire (now : Int) : WaitableTimer α := if t.expiry ≤ now then { t with queue := t.queue.expire } else t

/-- The `i`-th queued completion leaves the queue. -/
def take (i : Nat) : Option ((α × Bool) × WaitableTimer α) :=
  (t.queue.take i).map fun (completion, queue) => (completion, { t with queue })

/-- The waits that can still complete with success. -/
def live : List α := t.queue.live

/-- The waits whose successful completion is queued. -/
def fired : List α := t.queue.expired

variable {t}

@[simp] theorem cancel_expiry : t.cancel.expiry = t.expiry := rfl
@[simp] theorem expiresAt_expiry (expiry : Int) : (t.expiresAt expiry).expiry = expiry := rfl
@[simp] theorem asyncWait_expiry (wait : α) : (t.asyncWait wait).expiry = t.expiry := rfl

@[simp] theorem expire_expiry (now : Int) : (t.expire now).expiry = t.expiry := by
  unfold expire
  split <;> rfl

@[simp] theorem asyncWait_fired (wait : α) : (t.asyncWait wait).fired = t.fired := rfl

/-- What is cancelled completes with an error. -/
@[simp] theorem cancel_fired : t.cancel.fired = t.fired := by
  simp [fired, cancel, DeadlineTimer.expired, DeadlineTimer.cancel, List.filterMap_append, List.filterMap_map]

@[simp] theorem expiresAt_fired (expiry : Int) : (t.expiresAt expiry).fired = t.fired := cancel_fired

/-- What is queued survives a cancellation. -/
@[simp] theorem cancel_live : t.cancel.live = t.fired := DeadlineTimer.live_cancel

@[simp] theorem expiresAt_live (expiry : Int) : (t.expiresAt expiry).live = t.fired := cancel_live

theorem asyncWait_live (wait : α) : (t.asyncWait wait).live.Perm (wait :: t.live) := by
  unfold live asyncWait
  rw [DeadlineTimer.live_asyncWait]
  exact List.perm_middle

/-- A timer that is set anew. -/
theorem rearm_live (expiry : Int) (wait : α) :
    ((t.expiresAt expiry).asyncWait wait).live.Perm (wait :: t.fired) := by
  have h := asyncWait_live (t := t.expiresAt expiry) wait
  rwa [expiresAt_live] at h

theorem fired_sublist : t.fired.Sublist t.live := List.sublist_append_right ..

theorem expire_of_lt {now : Int} (h : now < t.expiry) : t.expire now = t := if_neg (not_le.2 h)

theorem expire_of_le {now : Int} (h : t.expiry ≤ now) :
    (t.expire now).queue.waits = [] ∧ (t.expire now).fired = t.fired ++ t.queue.waits := by
  unfold expire
  rw [if_pos h]
  simp [fired, DeadlineTimer.expired, DeadlineTimer.expire, List.filterMap_append, List.filterMap_map]

/-- Firing loses no wait. -/
theorem expire_live (now : Int) : (t.expire now).live.Perm t.live := by
  unfold expire
  split
  · exact DeadlineTimer.live_expire
  · exact List.Perm.refl _

theorem take_eq_some {i : Nat} {wait : α} {success : Bool} {t' : WaitableTimer α}
    (h : t.take i = some ((wait, success), t')) :
    t'.expiry = t.expiry ∧ t.live.Perm (if success then wait :: t'.live else t'.live) := by
  unfold take at h
  obtain ⟨⟨c, queue⟩, hq, heq⟩ := Option.map_eq_some_iff.1 h
  simp only [Prod.mk.injEq] at heq
  obtain ⟨rfl, rfl⟩ := heq
  exact ⟨rfl, DeadlineTimer.live_take hq⟩

theorem waits_of_take {i : Nat} {c : α × Bool} {t' : WaitableTimer α} (h : t.take i = some (c, t')) :
    t'.expiry = t.expiry ∧ t'.queue.waits = t.queue.waits := by
  unfold take at h
  obtain ⟨⟨c, queue⟩, hq, heq⟩ := Option.map_eq_some_iff.1 h
  simp only [Prod.mk.injEq] at heq
  obtain ⟨rfl, rfl⟩ := heq
  exact ⟨rfl, (DeadlineTimer.take_eq_some hq).2.1⟩

theorem fired_of_take {i : Nat} {wait : α} {success : Bool} {t' : WaitableTimer α}
    (h : t.take i = some ((wait, success), t')) :
    t.fired.Perm (if success then wait :: t'.fired else t'.fired) := by
  unfold take at h
  obtain ⟨⟨c, queue⟩, hq, heq⟩ := Option.map_eq_some_iff.1 h
  simp only [Prod.mk.injEq] at heq
  obtain ⟨rfl, rfl⟩ := heq
  obtain ⟨-, -, hp⟩ := DeadlineTimer.take_eq_some hq
  have hf := hp.filterMap fun c => if c.2 then some c.1 else none
  cases success with
  | false => exact hf
  | true => exact hf

end WaitableTimer
