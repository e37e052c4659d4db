import A17.Dispatch.RequestRuns

/-!
# One outcome for a request

A request ends with its reply or with its timeout, and one of its handlers is called once. The code tells
the two apart only by `operation_aborted`, so a timeout that is queued when the reply arrives comes after
it, and may then hit the request after; and a receive error calls the error handler but leaves the timeout
to call it again (`Races`). Without these two, every request has at most one outcome.
-/

namespace A17.Dispatch

def Request.handlers (r : Request) : List Nat := r.replyHandler.toList ++ r.errorHandler.toList

def ClientOp.handlers : ClientOp → List Nat
  | .request _ replyHandler errorHandler _ _ => replyHandler.toList ++ errorHandler.toList
  | .receive _ _ | .topicsChanged _ | .expire | .complete _ => []

namespace RequestClient
variable {c : RequestClient}

/-- The callbacks invoked on behalf of `r`, or that are its own handlers. -/
def outcomes (c : RequestClient) (r : Request) : Nat :=
  c.callbacks.countP fun k => k.handler.isSome && (k.request = r || k.handler.any (· ∈ r.handlers))

/-- A completion of the timeout of an earlier request neither ends the waiting nor touches the socket. -/
def SparesLater (c : RequestClient) : ClientOp → Prop
  | .complete i => ∀ e timer, c.timeoutTimer.take i = some (e, timer) → e.1 ∉ c.accepted.getLast? →
    (c.complete i).waitingForReceive = c.waitingForReceive ∧ (c.complete i).socket = c.socket
  | _ => True

/-- The last part of a reply arrives when the timeout has already passed, or the error handler is called
for a receive error while the timeout goes on. -/
def Races (c : RequestClient) : ClientOp → Prop
  | .receive (.ok part) _ => part.more = false ∧ c.receiving = true ∧ c.timeoutTimer.expired ≠ []
  | .receive (.error _) _ => c.receiving = true ∧ (∃ s ∈ c.socket, s.socket.errorHandler.isSome) ∧
    c.timeoutTimer.Scheduled
  | _ => False

/-- The callbacks invoked on behalf of `r`. -/
def answered (c : RequestClient) (r : Request) : Nat :=
  c.callbacks.countP fun k => k.handler.isSome && k.request = r

/-- The timeout that is under way is that of the pending request, which nobody has answered yet. -/
structure Single (c : RequestClient) : Prop where
  inv : c.Inv
  live : c.timeoutTimer.live = [] ∨
    c.waitingForReceive = true ∧ ∃ r ∈ c.accepted.getLast?, c.timeoutTimer.live = [r]
  known : ∀ k ∈ c.callbacks, k.request ∈ c.accepted
  once : ∀ r, c.answered r ≤ 1
  pending : c.waitingForReceive = true → (c.receiving = true ∨ c.timeoutTimer.live ≠ []) →
    ∀ r ∈ c.accepted.getLast?, c.answered r = 0

theorem answered_concat (c : RequestClient) (k : Callback) (r : Request) :
    answered { c with callbacks := c.callbacks ++ [k] } r ≤ c.answered r + if k.request = r then 1 else 0 := by
  simp only [answered, List.countP_append, List.countP_singleton]
  split <;> split <;> simp_all

theorem answered_eq_zero (h : ∀ k ∈ c.callbacks, k.request ∈ c.accepted) {r : Request} (hr : r ∉ c.accepted) :
    c.answered r = 0 := by
  rw [answered, List.countP_eq_zero]
  intro k hk
  have : k.request ≠ r := fun he => hr (he ▸ h k hk)
  simp [this]

namespace Single

/-- A callback is invoked on behalf of the pending request, and nothing is left that could invoke another. -/
theorem answer (h : c.Single) {c' : RequestClient} (hinv : c'.Inv) {r : Request} {k : Callback}
    (hr : r ∈ c.accepted.getLast?) (hk : k.request = r) (h0 : c.answered r = 0)
    (haccepted : c'.accepted = c.accepted) (hcallbacks : c'.callbacks = c.callbacks ++ [k])
    (hrec : c'.waitingForReceive = false ∨ c'.receiving = false) (hlive : c'.timeoutTimer.live = []) : c'.Single where
  inv := hinv
  live := .inl hlive
  known k' hk' := by
    rw [haccepted]
    rw [hcallbacks] at hk'
    rcases List.mem_append.1 hk' with hk' | hk'
    · exact h.known k' hk'
    · rw [List.mem_singleton.1 hk', hk]
      exact List.mem_of_getLast? hr
  once r' := by
    have hle := c.answered_concat k r'
    have heq : c'.answered r' = answered { c with callbacks := c.callbacks ++ [k] } r' := by
      rw [answered, answered, hcallbacks]
    rw [heq]
    refine hle.trans ?_
    split
    · next he => rw [← he, hk, h0]
    · exact h.once r'
  pending hw hpend := by
    rcases hpend with hpend | hpend
    · rcases hrec with h' | h'
      · rw [hw] at h'; cases h'
      · rw [hpend] at h'; cases h'
    · exact absurd hlive hpend

/-- Nothing is invoked, and whatever could invoke a callback could before. -/
theorem silent (h : c.Single) {c' : RequestClient} (hinv : c'.Inv) (haccepted : c'.accepted = c.accepted)
    (hcallbacks : c'.callbacks = c.callbacks) (hw : c'.waitingForReceive = c.waitingForReceive)
    (hrec : c'.receiving = true → c.receiving = true) (hlive : c'.timeoutTimer.live.Perm c.timeoutTimer.live) :
    c'.Single where
  inv := hinv
  live := by
    rw [hw, haccepted]
    rcases h.live with hl | ⟨hwait, r, hr, hl⟩
    · rw [hl, List.perm_nil] at hlive
      exact .inl hlive
    · rw [hl, List.perm_singleton] at hlive
      exact .inr ⟨hwait, r, hr, hlive⟩
  known := by
    rw [hcallbacks, haccepted]
    exact h.known
  once r := by
    rw [answered, hcallbacks]
    exact h.once r
  pending hwait hpend r hr := by
    rw [hw] at hwait
    rw [haccepted] at hr
    rw [answered, hcallbacks]
    refine h.pending hwait (hpend.imp hrec fun hne hnil => hne ?_) r hr
    rwa [hnil, List.perm_nil] at hlive

theorem pending_of_awaits (h : c.Single) {r : Request} (haw : c.Awaits r) :
    r ∈ c.accepted.getLast? ∧ c.answered r = 0 := by
  obtain ⟨hw, hr⟩ := h.inv.latest haw
  exact ⟨hr, h.pending hw (.inl haw.receiving) r hr⟩

/-- The wait that completes with success is the only live one, and that of the pending request. -/
theorem of_take (h : c.Single) {i : Nat} {r : Request} {timer : DeadlineTimer Request}
    (ht : c.timeoutTimer.take i = some ((r, true), timer)) :
    r ∈ c.accepted.getLast? ∧ c.answered r = 0 ∧ timer.live = [] := by
  have hp : c.timeoutTimer.live.Perm (r :: timer.live) := DeadlineTimer.live_take ht
  rcases h.live with hl | ⟨hw, r', hr', hl⟩
  · rw [hl, List.nil_perm] at hp; cases hp
  · rw [hl, List.singleton_perm] at hp
    obtain ⟨rfl, hnil⟩ := List.cons.inj hp
    exact ⟨hr', h.pending hw (.inr (by simp [hl])) _ hr', hnil.symm⟩

theorem accept (h : c.Single) {s : Connection} {r : Request} {replyHandler : Option Nat} {sent : List Part}
    {timeoutTimer : DeadlineTimer Request} (hwait : c.waitingForReceive = false) (hs : c.socket = some s)
    (hr : r.serial = c.accepted.length)
    (htimer : timeoutTimer = c.timeoutTimer ∨ ∃ interval, timeoutTimer =
      (c.timeoutTimer.expiresFromNow interval).asyncWait r) :
    Single { c with
      replyHandler, sent, timeoutTimer, waitingForReceive := true, socket := some (s.receive r),
      accepted := c.accepted ++ [r] } := by
  have hnil : c.timeoutTimer.live = [] := by
    rcases h.live with hl | ⟨hw, -⟩
    · exact hl
    · rw [hwait] at hw; cases hw
  have hlive : timeoutTimer.live = [] ∨ timeoutTimer.live = [r] := by
    rcases htimer with rfl | ⟨interval, rfl⟩
    · exact .inl hnil
    · have hexp : c.timeoutTimer.expired = [] := (List.append_eq_nil_iff.1 hnil).2
      have hl : (c.timeoutTimer.expiresFromNow interval).live = [] := DeadlineTimer.live_cancel.trans hexp
      rw [DeadlineTimer.live_asyncWait, (List.append_eq_nil_iff.1 hl).1, (List.append_eq_nil_iff.1 hl).2]
      exact .inr rfl
  refine ⟨h.inv.accept hwait hs hr htimer, ?_, ?_, h.once, ?_⟩
  · exact hlive.imp id fun hl => ⟨rfl, r, by simp, hl⟩
  · exact fun k hk => List.mem_append_left _ (h.known k hk)
  · intro _ _ r' hr'
    rw [List.getLast?_concat, Option.mem_some_iff] at hr'
    refine answered_eq_zero h.known fun hmem => ?_
    have := h.inv.serial r' hmem
    rw [← hr', hr] at this
    exact lt_irrefl _ this

theorem step (h : c.Single) (op : ClientOp) (hrace : ¬ c.Races op) : (c.step op).Single := by
  have hinv := h.inv.step op
  have hstep := step_cases h.inv op
  generalize c.step op = c' at hinv hstep ⊢
  cases hstep with
  | deaf | kept | none => exact h
  | rejected => exact h.silent hinv rfl rfl rfl id (.refl _)
  | accepted sent _ hwait hs htimer => exact h.accept hwait hs rfl htimer
  | part haw => exact h.silent hinv rfl rfl rfl (fun _ => haw.receiving) (.refl _)
  | reply message haw hlast hs =>
    obtain ⟨hr, h0⟩ := h.pending_of_awaits haw
    have hexp : c.timeoutTimer.expired = [] := not_not.1 fun hne => hrace ⟨hlast, haw.receiving, hne⟩
    exact h.answer hinv hr rfl h0 rfl rfl (.inl rfl) (DeadlineTimer.live_cancel.trans hexp)
  | @error _ r s ec haw hs =>
    have hdeaf : RequestClient.receiving { c with socket := some s } = false := by simp [RequestClient.receiving, hs]
    obtain ⟨hr, h0⟩ := h.pending_of_awaits haw
    cases he : r.errorHandler with
    | none =>
      rw [he] at hinv
      exact h.silent hinv rfl (by simp) rfl (fun _ => haw.receiving) (.refl _)
    | some handler =>
      rw [he] at hinv
      have hlive : c.timeoutTimer.live = [] := by
        by_contra hne
        obtain ⟨s', hs', hsr⟩ := id haw
        refine hrace ⟨haw.receiving, ⟨s', hs', ?_⟩, DeadlineTimer.scheduled_iff.2 hne⟩
        rw [hsr.errorHandler, he]; rfl
      exact h.answer hinv hr rfl h0 rfl rfl (.inr hdeaf) hlive
  | moved topic _ hs =>
    refine h.silent hinv rfl rfl rfl (fun hrec => ?_) (.refl _)
    have : RequestClient.receiving { c with socket := _, connectedTopic := topic } = false :=
      receiving_eq_false_iff.2 hs
    rw [this] at hrec; cases hrec
  | expire => exact h.silent hinv rfl rfl rfl id DeadlineTimer.live_expire
  | aborted ht => exact h.silent hinv rfl rfl rfl id (DeadlineTimer.live_take ht).symm
  | @timedOut _ r timer ht =>
    obtain ⟨hr, h0, hnil⟩ := h.of_take ht
    refine h.answer hinv hr rfl h0 rfl rfl (.inl rfl) ?_
    exact DeadlineTimer.live_cancel.trans (List.append_eq_nil_iff.1 hnil).2

theorem sparesLater (h : c.Single) (op : ClientOp) : c.SparesLater op := by
  cases op with
  | complete i =>
    rintro ⟨r, success⟩ timer ht hlater
    cases success with
    | false =>
      have : c.complete i = { c with timeoutTimer := timer } := by
        rw [complete, ht]; rfl
      rw [this]
      exact ⟨rfl, rfl⟩
    | true => exact absurd (h.of_take ht).1 hlater
  | request | receive | topicsChanged | expire => trivial

end Single

/-- `handlers` have been passed, no two of them the same. A handler that was called for a request is not one
of another accepted request. -/
structure Owned (handlers : List Nat) (c : RequestClient) : Prop where
  inv : c.Inv
  accepted : ∀ r ∈ c.accepted, ∀ h ∈ r.handlers, h ∈ handlers
  distinct : ∀ r ∈ c.accepted, ∀ r' ∈ c.accepted, ∀ h ∈ r.handlers, h ∈ r'.handlers → r = r'
  known : ∀ h ∈ c.replyHandler, h ∈ handlers
  latest : ∀ h ∈ c.replyHandler, ∀ r ∈ c.accepted, h ∈ r.handlers → r ∈ c.accepted.getLast?
  called : ∀ k ∈ c.callbacks, ∀ h ∈ k.handler, h ∈ handlers ∧ ∀ r ∈ c.accepted, h ∈ r.handlers → r = k.request

namespace Owned
variable {handlers : List Nat}

/-- A callback is invoked with a handler that is no other request's. -/
theorem call (h : Owned handlers c) {c' : RequestClient} (hinv : c'.Inv) {callbacks : List Callback}
    (hk : ∀ k ∈ callbacks, ∀ n ∈ k.handler, n ∈ handlers ∧ ∀ r ∈ c.accepted, n ∈ r.handlers → r = k.request)
    (haccepted : c'.accepted = c.accepted) (hreply : c'.replyHandler = c.replyHandler)
    (hcallbacks : c'.callbacks = c.callbacks ++ callbacks) : Owned handlers c' := by
  refine ⟨hinv, ?_, ?_, ?_, ?_, ?_⟩
  all_goals simp only [haccepted, hreply]
  · exact h.accepted
  · exact h.distinct
  · exact h.known
  · exact h.latest
  · intro k hmem
    rw [hcallbacks] at hmem
    exact (List.mem_append.1 hmem).elim (h.called k) (hk k)

/-- The error handler of an accepted request is called for it. -/
theorem error (h : Owned handlers c) {r : Request} (hr : r ∈ c.accepted) {n : Nat} (hn : n ∈ r.errorHandler) :
    n ∈ handlers ∧ ∀ r' ∈ c.accepted, n ∈ r'.handlers → r' = r := by
  have hmem : n ∈ r.handlers := List.mem_append_right _ (Option.mem_toList.2 hn)
  exact ⟨h.accepted r hr n hmem, fun r' hr' hn' => h.distinct r' hr' r hr n hn' hmem⟩

/-- A request is called; its handlers are new. -/
theorem reject (h : Owned handlers c) {replyHandler errorHandler : Option Nat} {sent : List Part}
    (hnew : ∀ n ∈ replyHandler.toList ++ errorHandler.toList, n ∉ handlers) :
    Owned (handlers ++ (replyHandler.toList ++ errorHandler.toList)) { c with replyHandler, sent } where
  inv := ⟨h.inv.receive, h.inv.waits, h.inv.completions, h.inv.serial⟩
  accepted r hr n hn := List.mem_append_left _ (h.accepted r hr n hn)
  distinct := h.distinct
  known _ hn := List.mem_append_right _ (List.mem_append_left _ (Option.mem_toList.2 hn))
  latest n hn r hr hmem :=
    absurd (h.accepted r hr n hmem) (hnew n (List.mem_append_left _ (Option.mem_toList.2 hn)))
  called k hk n hn := ⟨List.mem_append_left _ (h.called k hk n hn).1, (h.called k hk n hn).2⟩

theorem accept (h : Owned handlers c) {c' : RequestClient} (hinv : c'.Inv) {r : Request}
    (hnew : ∀ n ∈ r.handlers, n ∉ handlers) (haccepted : c'.accepted = c.accepted ++ [r])
    (hreply : c'.replyHandler = r.replyHandler) (hcallbacks : c'.callbacks = c.callbacks) :
    Owned (handlers ++ r.handlers) c' := by
  -- an old handler is none of `r`
  have hold : ∀ r' ∈ c.accepted, ∀ n ∈ r'.handlers, n ∉ r.handlers :=
    fun r' hr' n hn hn' => hnew n hn' (h.accepted r' hr' n hn)
  refine ⟨hinv, ?_, ?_, ?_, ?_, ?_⟩
  all_goals simp only [haccepted, hreply, hcallbacks]
  · intro r' hr' n hn
    rcases List.mem_append.1 hr' with hr' | hr'
    · exact List.mem_append_left _ (h.accepted r' hr' n hn)
    · rw [List.mem_singleton.1 hr'] at hn
      exact List.mem_append_right _ hn
  · intro r₁ hr₁ r₂ hr₂ n hn₁ hn₂
    rcases List.mem_append.1 hr₁ with hr₁ | hr₁ <;> rcases List.mem_append.1 hr₂ with hr₂ | hr₂
    · exact h.distinct r₁ hr₁ r₂ hr₂ n hn₁ hn₂
    · rw [List.mem_singleton.1 hr₂] at hn₂
      exact absurd hn₂ (hold r₁ hr₁ n hn₁)
    · rw [List.mem_singleton.1 hr₁] at hn₁
      exact absurd hn₁ (hold r₂ hr₂ n hn₂)
    · rw [List.mem_singleton.1 hr₁, List.mem_singleton.1 hr₂]
  · exact fun _ hn => List.mem_append_right _ (List.mem_append_left _ (Option.mem_toList.2 hn))
  · intro n hn r' hr' hmem
    rcases List.mem_append.1 hr' with hr' | hr'
    · exact absurd (List.mem_append_left _ (Option.mem_toList.2 hn)) (hold r' hr' n hmem)
    · rw [List.mem_singleton.1 hr', List.getLast?_concat]; rfl
  · intro k hk n hn
    obtain ⟨hmem, hown⟩ := h.called k hk n hn
    refine ⟨List.mem_append_left _ hmem, fun r' hr' hn' => ?_⟩
    rcases List.mem_append.1 hr' with hr' | hr'
    · exact hown r' hr' hn'
    · rw [List.mem_singleton.1 hr'] at hn'
      exact absurd hmem (hnew n hn')

theorem step (h : Owned handlers c) (op : ClientOp) (hnew : ∀ n ∈ op.handlers, n ∉ handlers) :
    Owned (handlers ++ op.handlers) (c.step op) := by
  have hinv := h.inv.step op
  have hstep := step_cases h.inv op
  generalize c.step op = c' at hinv hstep ⊢
  cases hstep with
  | rejected => exact h.reject hnew
  | accepted => exact h.accept (r := c.nextRequest _ _ _) hinv hnew rfl rfl rfl
  | deaf | kept | none => rwa [ClientOp.handlers, List.append_nil]
  | part | moved | expire | aborted =>
    rw [ClientOp.handlers, List.append_nil]
    exact h.call hinv (by simp) rfl rfl (List.append_nil _).symm
  | @reply _ _ r _ message haw =>
    rw [ClientOp.handlers, List.append_nil]
    refine h.call hinv (fun k hk n hn => ?_) rfl rfl rfl
    rw [List.mem_singleton.1 hk] at hn ⊢
    refine ⟨h.known n hn, fun r' hr' hn' => ?_⟩
    -- the handler in place is that of the latest request if it is an accepted one's at all
    exact Option.mem_unique (h.latest n hn r' hr' hn') (h.inv.latest haw).2
  | @error _ r s ec haw hs =>
    rw [ClientOp.handlers, List.append_nil]
    refine h.call hinv (fun k hk n hn => ?_) rfl rfl rfl
    obtain ⟨n', hn', rfl⟩ := List.mem_map.1 hk
    obtain rfl : n' = n := Option.some.inj hn
    exact h.error (List.mem_of_getLast? (h.inv.latest haw).2) (Option.mem_toList.1 hn')
  | @timedOut _ r timer ht =>
    rw [ClientOp.handlers, List.append_nil]
    refine h.call hinv (fun k hk n hn => ?_) rfl rfl rfl
    rw [List.mem_singleton.1 hk] at hn ⊢
    exact h.error (h.inv.take ht).2 hn

end Owned

theorem nodup_handlers_of_initial {pre ops : List ClientOp} (hpre : pre <+: ops)
    (h : (ops.flatMap ClientOp.handlers).Nodup) : (pre.flatMap ClientOp.handlers).Nodup := by
  obtain ⟨rest, rfl⟩ := hpre
  rw [List.flatMap_append] at h
  exact (List.nodup_append.1 h).1

theorem owned_run {ops : List ClientOp} (h : (ops.flatMap ClientOp.handlers).Nodup) :
    Owned (ops.flatMap ClientOp.handlers) (run {} ops) := by
  refine Run.history (H := fun pre c => Owned (pre.flatMap ClientOp.handlers) c) ?_ fun pre op hpre hc => ?_
  · constructor
    · exact Inv.init
    all_goals simp
  · have hnd := nodup_handlers_of_initial hpre h
    rw [List.flatMap_append, List.flatMap_singleton] at hnd ⊢
    exact hc.step op fun n hn hn' => (List.nodup_append.1 hnd).2.2 n hn' n hn rfl

theorem outcomes_le_answered {handlers : List Nat} (h : Owned handlers c) {r : Request} (hr : r ∈ c.accepted) :
    c.outcomes r ≤ c.answered r := by
  refine List.countP_mono_left fun k hk hcount => ?_
  obtain ⟨n, hn⟩ : ∃ n, k.handler = some n := Option.isSome_iff_exists.1 (by simp_all)
  simp only [hn, Option.isSome_some, Option.any_some, Bool.true_and, Bool.or_eq_true, decide_eq_true_eq] at hcount ⊢
  rcases hcount with hcount | hcount
  · exact hcount
  · exact ((h.called k hk n hn).2 r hr hcount).symm

theorem Single.init : Single {} := by
  refine ⟨Inv.init, .inl rfl, by simp, fun r => Nat.zero_le _, by simp⟩

/-- In a run in which no step races, with no handler passed twice, every accepted request has at most one
outcome in every state, and the timeout of an earlier request does nothing to a later one. -/
theorem outcomes_le_one {ops : List ClientOp} (hdistinct : (ops.flatMap ClientOp.handlers).Nodup)
    (h : Run.Steps step (fun c op => ¬ c.Races op) {} ops) :
    Run.States step (fun c => ∀ r ∈ c.accepted, c.outcomes r ≤ 1) {} ops ∧ Run.Steps step SparesLater {} ops := by
  have hsingle : Run.States step Single {} ops := h.states (fun c op hc hrace => hc.step op hrace) Single.init
  constructor
  · intro pre hpre r hr
    have hnd := nodup_handlers_of_initial hpre hdistinct
    exact (outcomes_le_answered (owned_run hnd) hr).trans ((hsingle pre hpre).once r)
  · intro pre op hpre
    exact (hsingle pre ((List.prefix_append ..).trans hpre)).sparesLater op

/-- One request times out, the next is answered. -/
theorem outcomes_after_timeout :
    let ops : List ClientOp := [.topicsChanged oneProvider,
      .request [[1]] (some 0) (some 1) 1 (fun _ => none), .expire, .complete 0,
      .request [[1]] (some 2) (some 3) 1 (fun _ => none), .receive (.ok ⟨[2], false⟩) true, .complete 0]
    Run.States step (fun c => ∀ r ∈ c.accepted, c.outcomes r ≤ 1) {} ops ∧ Run.Steps step SparesLater {} ops := by
  refine outcomes_le_one (by decide) ?_
  simp only [Run.steps_cons, Run.steps_nil, Races, not_false_eq_true, true_and, and_true]
  rintro ⟨-, hexp⟩
  exact hexp (by decide)

/-- The reply arrives when the timeout is already queued: both handlers of the request are called, and its
timeout ends the waiting of the request after it. -/
theorem timeout_after_reply :
    ¬ ∀ ops : List ClientOp, (ops.flatMap ClientOp.handlers).Nodup →
      Run.States step (fun c => ∀ r ∈ c.accepted, c.outcomes r ≤ 1) {} ops ∧ Run.Steps step SparesLater {} ops := by
  intro h
  have hone := (h [.topicsChanged oneProvider, .request [[1]] (some 0) (some 1) 1 (fun _ => none), .expire,
    .receive (.ok ⟨[2], false⟩) true, .request [[1]] (some 2) (some 3) 1 (fun _ => none), .complete 0]
    (by decide)).1.last ⟨0, some 0, some 1, 1⟩ (by decide)
  exact absurd hone (by decide)

end RequestClient
end A17.Dispatch
