import Mathlib.Data.List.Perm.Basic

/-!
# A deadline timer of an event loop

`boost::asio::deadline_timer` as its clients see it. Waits are outstanding until the deadline passes
(`expire`), which queues their completions with success, or until they are cancelled, which queues
them with an error; setting a new deadline cancels. A completion that is already queued is beyond the
reach of `cancel`. `α` names the handler of a wait.
-/

structure DeadlineTimer (α : Type) where
  /-- The last deadline set, in milliseconds from the moment it was set. -/
  interval : Nat := 0
  waits : List α := []
  /-- The queued completions; `true` is success, `false` `operation_aborted`. -/
  completions : List (α × Bool) := []
deriving DecidableEq

namespace DeadlineTimer
variable {α : Type} (t : DeadlineTimer α)

def cancel : DeadlineTimer α :=
  { t with waits := [], completions := t.completions ++ t.waits.map (·, false) }

def expiresFromNow (interval : Nat) : DeadlineTimer α := { t.cancel with interval }

def asyncWait (handler : α) : DeadlineTimer α := { t with waits := t.waits ++ [handler] }

def expire : DeadlineTimer α :=
  { t with waits := [], completions := t.completions ++ t.waits.map (·, true) }

/-- The `i`-th queued completion leaves the queue. -/
def take (i : Nat) : Option ((α × Bool) × DeadlineTimer α) :=
  t.completions[i]?.map (·, { t with completions := t.completions.eraseIdx i })

/-- A wait is outstanding, or its successful completion is queued. -/
def Scheduled : Prop := t.waits ≠ [] ∨ ∃ a, (a, true) ∈ t.completions

/-- The waits whose successful completion is queued. -/
def expired : List α := t.completions.filterMap fun c => if c.2 then some c.1 else none

/-- The waits that can still complete with success. -/
def live : List α := t.waits ++ t.expired

variable {t}

theorem mem_expired {a : α} : a ∈ t.expired ↔ (a, true) ∈ t.completions := by
  simp [expired, List.mem_filterMap]

theorem scheduled_iff : t.Scheduled ↔ t.live ≠ [] := by
  have hexp : (∃ a, (a, true) ∈ t.completions) ↔ t.expired ≠ [] := by
    simp only [← mem_expired]
    exact ⟨fun ⟨_, ha⟩ => List.ne_nil_of_mem ha, List.exists_mem_of_ne_nil _⟩
  rw [Scheduled, hexp, live, ne_eq, ne_eq, ne_eq, List.append_eq_nil_iff, not_and_or]

theorem mem_cancel {e : α × Bool} (h : e ∈ t.cancel.completions) : e ∈ t.completions ∨ e.1 ∈ t.waits := by
  simp only [cancel, List.mem_append, List.mem_map] at h
  rcases h with h | ⟨a, ha, rfl⟩
  · exact .inl h
  · exact .inr ha

theorem mem_expire {e : α × Bool} (h : e ∈ t.expire.completions) : e ∈ t.completions ∨ e.1 ∈ t.waits := by
  simp only [expire, List.mem_append, List.mem_map] at h
  rcases h with h | ⟨a, ha, rfl⟩
  · exact .inl h
  · exact .inr ha

theorem live_cancel : t.cancel.live = t.expired := by
  simp [live, cancel, expired, List.filterMap_append, List.filterMap_map]

theorem live_asyncWait (a : α) : (t.asyncWait a).live = t.waits ++ a :: t.expired := by
  simp [live, asyncWait, expired]

theorem live_expire : t.expire.live.Perm t.live := by
  have h : t.expire.live = t.expired ++ t.waits := by
    simp [live, expire, expired, List.filterMap_append, List.filterMap_map]
  rw [h]
  exact List.perm_append_comm

theorem take_eq_some {i : Nat} {c : α × Bool} {t' : DeadlineTimer α} (h : t.take i = some (c, t')) :
    t'.interval = t.interval ∧ t'.waits = t.waits ∧ t.completions.Perm (c :: t'.completions) := by
  simp only [take, Option.map_eq_some_iff, Prod.mk.injEq] at h
  obtain ⟨c, hc, rfl, rfl⟩ := h
  obtain ⟨hi, rfl⟩ := List.getElem?_eq_some_iff.1 hc
  exact ⟨rfl, rfl, (List.getElem_cons_eraseIdx_perm hi).symm⟩

theorem live_take {i : Nat} {a : α} {success : Bool} {t' : DeadlineTimer α}
    (h : t.take i = some ((a, success), t')) : t.live.Perm (if success then a :: t'.live else t'.live) := by
  obtain ⟨-, hw, hp⟩ := take_eq_some h
  have he := hp.filterMap fun c => if c.2 then some c.1 else none
  rw [live, live, hw, expired, expired]
  cases success with
  | false => exact he.append_left _
  | true => exact (he.append_left _).trans List.perm_middle

theorem scheduled_asyncWait (a : α) : (t.asyncWait a).Scheduled := .inl (by simp [asyncWait])

theorem Scheduled.expire (h : t.Scheduled) : t.expire.Scheduled := by
  rw [scheduled_iff] at h ⊢
  intro he
  have hp := live_expire (t := t)
  rw [he, List.nil_perm] at hp
  exact h hp

theorem scheduled_take {i : Nat} {a : α} {t' : DeadlineTimer α} (h : t.take i = some ((a, false), t')) :
    t.Scheduled ↔ t'.Scheduled := by
  have hp : t.live.Perm t'.live := live_take h
  rw [scheduled_iff, scheduled_iff, ne_eq, ne_eq, not_iff_not]
  constructor
  · intro hnil
    rwa [hnil, List.nil_perm] at hp
  · intro hnil
    rwa [hnil, List.perm_nil] at hp

/-- Once the deadline of a live timer has passed, a successful completion is queued. -/
theorem Scheduled.exists_take (h : t.Scheduled) : ∃ i a t', t.expire.take i = some ((a, true), t') := by
  obtain ⟨a, ha⟩ : ∃ a, a ∈ t.expire.live := List.exists_mem_of_ne_nil _ (scheduled_iff.1 h.expire)
  have hq : (a, true) ∈ t.expire.completions := by
    rwa [live, DeadlineTimer.expire, List.nil_append, mem_expired] at ha
  obtain ⟨i, hi⟩ := List.mem_iff_getElem?.1 hq
  exact ⟨i, a, _, by rw [take, hi]; rfl⟩

end DeadlineTimer
