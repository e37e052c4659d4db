import A17.Lib.Run
import A17.Lib.WaitableTimer

/-!
# The watchdog

`Watchdog::mark` sets the timer anew, which cancels the wait of the mark before it. So a mark leads to the callback
exactly if the loop looks at the clock after the timeout and before the next mark (`Silent`), and to one callback at
most (`callbacks_iff`); a mark that comes late but before the loop looks prevents it, and nothing is called before the
first mark.
-/

namespace A17.Utils

/-- A wait is named by the number of its mark. -/
structure Watchdog where
  timeout : Int
  timer : WaitableTimer Nat
deriving DecidableEq

namespace Watchdog

/-- The constructor sets the timer and waits for nothing. -/
def new (now timeout : Int) : Watchdog := { timeout, timer := { expiry := now + timeout } }

def mark (w : Watchdog) (now : Int) (wait : Nat) : Watchdog :=
  { w with timer := (w.timer.expiresAt (now + w.timeout)).asyncWait wait }

/-- A client's mark, the passing of time, the loop's look at the clock, the `i`-th queued completion. -/
inductive Event where
  | mark
  | pass (time : Nat)
  | expire
  | complete (i : Nat)
deriving DecidableEq

structure Loop where
  now : Int
  watchdog : Watchdog
  marks : Nat := 0
  /-- The marks whose handler called the callback. -/
  callbacks : List Nat := []
deriving DecidableEq

namespace Loop

def step (l : Loop) : Event → Loop
  | .mark => { l with watchdog := l.watchdog.mark l.now l.marks, marks := l.marks + 1 }
  | .pass time => { l with now := l.now + time }
  | .expire => { l with watchdog.timer := l.watchdog.timer.expire l.now }
  | .complete i =>
    match l.watchdog.timer.take i with
    | none => l
    | some ((wait, success), timer) =>
      -- `ec != operation_aborted`
      { l with watchdog.timer := timer, callbacks := if success then l.callbacks ++ [wait] else l.callbacks }

def new (now timeout : Int) : Loop := { now, watchdog := Watchdog.new now timeout }

/-- The callbacks made and those whose expiry is queued. -/
def called (l : Loop) : List Nat := l.callbacks ++ l.watchdog.timer.fired

end Loop

/-- The time that passes. -/
def elapsed (events : List Event) : Int := (events.map fun e => match e with | .pass time => (time : Int) | _ => 0).sum

/-- The events end with the `k`-th mark and `mid`. -/
def Since (events : List Event) (k : Nat) (mid : List Event) : Prop :=
  ∃ pre, events = pre ++ .mark :: mid ∧ pre.count .mark = k ∧ .mark ∉ mid

/-- The loop looks at the clock when the timeout has passed since the `k`-th mark and before the next. -/
def Silent (timeout : Int) (events : List Event) (k : Nat) : Prop :=
  ∃ pre mid post, events = pre ++ .mark :: (mid ++ .expire :: post) ∧ pre.count .mark = k ∧ .mark ∉ mid ∧
    timeout ≤ elapsed mid

variable {events mid : List Event} {timeout : Int} {k : Nat}

theorem elapsed_concat (e : Event) : elapsed (mid ++ [e]) = elapsed mid + elapsed [e] := by
  simp [elapsed]

theorem Silent.lt (h : Silent timeout events k) : k < events.count .mark := by
  obtain ⟨pre, mid, post, rfl, rfl, -⟩ := h
  simp only [List.count_append, List.count_cons_self]
  omega

theorem Since.unique {k' : Nat} {mid' : List Event} (h : Since events k mid) (h' : Since events k' mid') :
    mid = mid' := by
  obtain ⟨pre, rfl, -, hmid⟩ := h
  obtain ⟨pre', heq, -, hmid'⟩ := h'
  rcases List.append_eq_append_iff.1 heq with ⟨as, -, has⟩ | ⟨as, -, has⟩
  · cases as with
    | nil => exact (List.cons.inj has).2
    | cons a as =>
      obtain ⟨-, rfl⟩ := List.cons.inj has
      exact absurd (by simp) hmid
  · cases as with
    | nil => exact (List.cons.inj has).2.symm
    | cons a as =>
      obtain ⟨-, rfl⟩ := List.cons.inj has
      exact absurd (by simp) hmid'

theorem since_nil : ¬ Since [] k mid := by
  rintro ⟨pre, h, -⟩
  simp at h

theorem since_mark : Since (events ++ [.mark]) k mid ↔ mid = [] ∧ events.count .mark = k := by
  constructor
  · rintro ⟨pre, heq, hk, hmid⟩
    cases mid using List.reverseRecOn with
    | nil =>
      obtain ⟨rfl, -⟩ := List.append_singleton_inj.1 heq
      exact ⟨rfl, hk⟩
    | append_singleton mid e =>
      rw [← List.cons_append, ← List.append_assoc] at heq
      obtain ⟨-, rfl⟩ := List.append_singleton_inj.1 heq
      exact absurd (by simp) hmid
  · rintro ⟨rfl, hk⟩
    exact ⟨events, rfl, hk, by simp⟩

theorem since_concat {e : Event} (he : e ≠ .mark) :
    Since (events ++ [e]) k mid ↔ ∃ mid', mid = mid' ++ [e] ∧ Since events k mid' := by
  constructor
  · rintro ⟨pre, heq, hk, hmid⟩
    cases mid using List.reverseRecOn with
    | nil =>
      obtain ⟨-, rfl⟩ := List.append_singleton_inj.1 heq
      exact absurd rfl he
    | append_singleton mid e' =>
      rw [← List.cons_append, ← List.append_assoc] at heq
      obtain ⟨rfl, rfl⟩ := List.append_singleton_inj.1 heq
      exact ⟨mid, rfl, pre, rfl, hk, fun hin => hmid (by simp [hin])⟩
  · rintro ⟨mid, rfl, pre, rfl, hk, hmid⟩
    exact ⟨pre, by simp, hk, by simp [hmid, he.symm]⟩

theorem silent_concat {e : Event} :
    Silent timeout (events ++ [e]) k ↔
      Silent timeout events k ∨ e = .expire ∧ ∃ mid, Since events k mid ∧ timeout ≤ elapsed mid := by
  constructor
  · rintro ⟨pre, mid, post, heq, hk, hmid, ht⟩
    cases post using List.reverseRecOn with
    | nil =>
      rw [← List.cons_append, ← List.append_assoc] at heq
      obtain ⟨rfl, rfl⟩ := List.append_singleton_inj.1 heq
      exact .inr ⟨rfl, mid, ⟨pre, rfl, hk, hmid⟩, ht⟩
    | append_singleton post e' =>
      rw [← List.cons_append, ← List.append_assoc, ← List.cons_append, ← List.append_assoc] at heq
      obtain ⟨rfl, rfl⟩ := List.append_singleton_inj.1 heq
      exact .inl ⟨pre, mid, post, by simp, hk, hmid, ht⟩
  · rintro (⟨pre, mid, post, rfl, hk, hmid, ht⟩ | ⟨rfl, mid, ⟨pre, rfl, hk, hmid⟩, ht⟩)
    · exact ⟨pre, mid, post ++ [e], by simp, hk, hmid, ht⟩
    · exact ⟨pre, mid, [], by simp, hk, hmid, ht⟩

/-- What a state says of the events that led to it. -/
structure Tracks (t : Int) (events : List Event) (l : Loop) : Prop where
  marks : events.count .mark = l.marks
  timeout : l.watchdog.timeout = t
  nodup : l.called.Nodup
  called : ∀ k, k ∈ l.called ↔ Silent t events k
  single : l.watchdog.timer.queue.waits.length ≤ 1
  waits : ∀ k ∈ l.watchdog.timer.queue.waits, ¬ Silent t events k ∧
    ∃ mid, Since events k mid ∧ l.watchdog.timer.expiry = l.now - elapsed mid + t
  fired : ∀ k mid, Since events k mid → k ∉ l.watchdog.timer.queue.waits → Silent t events k

variable {t : Int} {l : Loop}

theorem tracks_new (now t : Int) : Tracks t [] (Loop.new now t) where
  marks := rfl
  timeout := rfl
  nodup := List.nodup_nil
  called k := by
    constructor
    · intro hk
      cases hk
    · intro hs
      exact absurd hs.lt (Nat.not_lt_zero k)
  single := Nat.zero_le _
  waits k hk := by cases hk
  fired k mid hs := absurd hs since_nil

theorem Tracks.mark (h : Tracks t events l) : Tracks t (events ++ [.mark]) (l.step .mark) := by
  have hsilent : ∀ k, Silent t (events ++ [.mark]) k ↔ Silent t events k := by
    intro k
    rw [silent_concat]
    simp
  have hcalled : (l.step .mark).called = l.called := by
    show l.callbacks ++ ((l.watchdog.timer.expiresAt _).asyncWait _).fired = l.called
    rw [WaitableTimer.asyncWait_fired, WaitableTimer.expiresAt_fired]
    rfl
  have hwaits : (l.step .mark).watchdog.timer.queue.waits = [l.marks] := rfl
  refine ⟨by simp [Loop.step, h.marks], h.timeout, hcalled ▸ h.nodup, fun k => ?_, hwaits ▸ le_rfl, ?_, ?_⟩
  · rw [hcalled, hsilent]
    exact h.called k
  · intro k hk
    obtain rfl : k = l.marks := by simpa [hwaits] using hk
    refine ⟨fun hs => ?_, [], since_mark.2 ⟨rfl, h.marks⟩, ?_⟩
    · have := ((hsilent _).1 hs).lt
      have := h.marks
      omega
    · show l.now + l.watchdog.timeout = l.now - 0 + t
      rw [h.timeout]
      omega
  · intro k mid hs hk
    obtain ⟨-, hcount⟩ := since_mark.1 hs
    refine absurd ?_ hk
    rw [hwaits, ← hcount, h.marks]
    exact List.mem_singleton_self _

/-- An event that leaves the timer and the callbacks as they are, and makes no mark silent. -/
theorem Tracks.idle (h : Tracks t events l) {e : Event} (hmark : e ≠ .mark)
    (hsilent : ∀ k, Silent t (events ++ [e]) k ↔ Silent t events k) {l' : Loop}
    (hnow : l'.now = l.now + elapsed [e]) (hmarks : l'.marks = l.marks)
    (htimeout : l'.watchdog.timeout = l.watchdog.timeout) (hcalled : l'.called.Perm l.called)
    (hwaits : l'.watchdog.timer.queue.waits = l.watchdog.timer.queue.waits)
    (hexpiry : l'.watchdog.timer.expiry = l.watchdog.timer.expiry) : Tracks t (events ++ [e]) l' := by
  refine ⟨?_, htimeout.trans h.timeout, hcalled.nodup_iff.2 h.nodup, fun k => ?_, hwaits ▸ h.single, ?_, ?_⟩
  · rw [List.count_append, List.count_singleton, if_neg (by simpa using hmark), hmarks]
    exact h.marks
  · rw [hcalled.mem_iff, hsilent]
    exact h.called k
  · intro k hk
    rw [hwaits] at hk
    obtain ⟨hs, mid, hmid, hexp⟩ := h.waits k hk
    refine ⟨fun hs' => hs ((hsilent k).1 hs'), mid ++ [e], (since_concat hmark).2 ⟨mid, rfl, hmid⟩, ?_⟩
    rw [hexpiry, hexp, hnow, elapsed_concat]
    omega
  · intro k mid hs hk
    obtain ⟨mid, rfl, hmid⟩ := (since_concat hmark).1 hs
    exact (hsilent k).2 (h.fired k mid hmid (hwaits ▸ hk))

theorem silent_concat_of_ne {e : Event} (he : e ≠ .expire) :
    Silent t (events ++ [e]) k ↔ Silent t events k := by
  rw [silent_concat]
  exact or_iff_left fun h => he h.1

theorem Tracks.pass (h : Tracks t events l) (time : Nat) :
    Tracks t (events ++ [.pass time]) (l.step (.pass time)) :=
  h.idle (by simp) (fun _ => silent_concat_of_ne (by simp)) (by simp [Loop.step, elapsed]) rfl rfl (List.Perm.refl _)
    rfl rfl

theorem Tracks.complete (h : Tracks t events l) (i : Nat) :
    Tracks t (events ++ [.complete i]) (l.step (.complete i)) := by
  have hsilent : ∀ k, Silent t (events ++ [.complete i]) k ↔ Silent t events k := fun _ =>
    silent_concat_of_ne (by simp)
  cases htake : l.watchdog.timer.take i with
  | none =>
    have heq : l.step (.complete i) = l := by simp [Loop.step, htake]
    rw [heq]
    exact h.idle (by simp) hsilent (by simp [elapsed]) rfl rfl (List.Perm.refl _) rfl rfl
  | some c =>
    obtain ⟨⟨wait, success⟩, timer⟩ := c
    have heq : l.step (.complete i) = { l with
        watchdog.timer := timer, callbacks := if success then l.callbacks ++ [wait] else l.callbacks } := by
      simp [Loop.step, htake]
    rw [heq]
    obtain ⟨hexp, hwaits⟩ := WaitableTimer.waits_of_take htake
    refine h.idle (by simp) hsilent (by simp [elapsed]) rfl rfl ?_ hwaits hexp
    have hp := WaitableTimer.fired_of_take htake
    cases success with
    | false => exact hp.symm.append_left _
    | true =>
      refine List.Perm.trans ?_ (hp.symm.append_left l.callbacks)
      show ((l.callbacks ++ [wait]) ++ timer.fired).Perm _
      rw [List.append_assoc]
      exact List.Perm.refl _

/-- The wait of the last mark is due exactly if the timeout has passed since the mark. -/
theorem Tracks.expire (h : Tracks t events l) : Tracks t (events ++ [.expire]) (l.step .expire) := by
  have hne : Event.expire ≠ .mark := by simp
  have hdue : ∀ k mid, Since events k mid → k ∈ l.watchdog.timer.queue.waits →
      (t ≤ elapsed mid ↔ l.watchdog.timer.expiry ≤ l.now) := by
    intro k mid hmid hk
    obtain ⟨-, mid', hmid', hexp⟩ := h.waits k hk
    obtain rfl := hmid.unique hmid'
    omega
  unfold Loop.step
  rcases lt_or_ge l.now l.watchdog.timer.expiry with hlt | hge
  · rw [WaitableTimer.expire_of_lt hlt]
    refine h.idle hne (fun k => ?_) (by simp [elapsed]) rfl rfl (List.Perm.refl _) rfl rfl
    rw [silent_concat]
    refine or_iff_left_of_imp ?_
    rintro ⟨-, mid, hmid, ht⟩
    refine h.fired k mid hmid fun hk => ?_
    have := (hdue k mid hmid hk).1 ht
    omega
  · obtain ⟨hwaits, hfired⟩ := WaitableTimer.expire_of_le hge
    have hsilent : ∀ k, Silent t (events ++ [.expire]) k ↔
        Silent t events k ∨ k ∈ l.watchdog.timer.queue.waits := by
      intro k
      rw [silent_concat]
      constructor
      · rintro (hs | ⟨-, mid, hmid, -⟩)
        · exact .inl hs
        · exact or_iff_not_imp_right.2 (h.fired k mid hmid)
      · rintro (hs | hk)
        · exact .inl hs
        · obtain ⟨-, mid, hmid, -⟩ := h.waits k hk
          exact .inr ⟨rfl, mid, hmid, (hdue k mid hmid hk).2 hge⟩
    have hcalled : Loop.called { l with watchdog.timer := l.watchdog.timer.expire l.now } =
        l.called ++ l.watchdog.timer.queue.waits := by
      show l.callbacks ++ (l.watchdog.timer.expire l.now).fired = _
      rw [hfired, ← List.append_assoc]
      rfl
    have hnodup : l.watchdog.timer.queue.waits.Nodup := by
      match hw : l.watchdog.timer.queue.waits with
      | [] => exact List.nodup_nil
      | [k] => exact by simp
      | _ :: _ :: _ => exact absurd (hw ▸ h.single) (by simp)
    refine ⟨by simp [h.marks], h.timeout, ?_, fun k => ?_, ?_, ?_, ?_⟩
    · rw [hcalled]
      refine List.nodup_append.2 ⟨h.nodup, hnodup, ?_⟩
      rintro k hk _ hk' rfl
      exact (h.waits k hk').1 ((h.called k).1 hk)
    · rw [hcalled, List.mem_append, hsilent, h.called]
    · show (l.watchdog.timer.expire l.now).queue.waits.length ≤ 1
      rw [hwaits]
      exact Nat.zero_le _
    · intro k hk
      rw [hwaits] at hk
      cases hk
    · intro k mid hs _
      obtain ⟨mid, rfl, hmid⟩ := (since_concat hne).1 hs
      exact (hsilent k).2 (or_iff_not_imp_right.2 (h.fired k mid hmid))

/-- A mark calls the callback, once, exactly if the loop finds it silent. -/
theorem callbacks_iff (now timeout : Int) (events : List Event) :
    (events.foldl Loop.step (Loop.new now timeout)).called.Nodup ∧
      ∀ k, k ∈ (events.foldl Loop.step (Loop.new now timeout)).called ↔ Silent timeout events k := by
  have h : Tracks timeout events (events.foldl Loop.step (Loop.new now timeout)) := by
    refine Run.history (H := Tracks timeout) (tracks_new now timeout) fun pre e _ hpre => ?_
    cases e with
    | mark => exact hpre.mark
    | pass time => exact hpre.pass time
    | expire => exact hpre.expire
    | complete i => exact hpre.complete i
  exact ⟨h.nodup, h.called⟩

end Watchdog
end A17.Utils
