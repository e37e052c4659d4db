import A17.Dispatch.RequestClient

/-!
# Runs of a `RequestClient`

A client that waits has something to wait for (`NotStuck`): lost if the receive goes, with its socket or
with an error, while no timeout is under way (`Strands`). A rejected request changes nothing (`Same`):
but it leaves its reply handler behind, for the reply to the request that is still pending
(`Overwrites`). Either way the runs without such a step are exactly the good ones.
-/

namespace A17.Dispatch

/-- An event that the client does not bring about itself, and that leaves the directory alone. -/
def ClientOp.IsArrival : ClientOp → Prop
  | .receive _ _ | .expire | .complete _ => True
  | _ => False

namespace RequestClient
variable {c : RequestClient}

/-! ## Waiting for something -/

def NotStuck (c : RequestClient) : Prop :=
  c.waitingForReceive = true → c.receiving = true ∨ c.timeoutTimer.Scheduled

/-- Events can arrive after which the client, if it is connected, takes every request it can send. -/
def Recovers (c : RequestClient) : Prop :=
  ∃ events : List ClientOp, (∀ e ∈ events, e.IsArrival) ∧ (c.run events).waitingForReceive = false ∧
    (c.isConnected = true → ∀ message replyHandler errorHandler timeout zmqSend,
      (Socket.send message zmqSend).2 = none →
        ((c.run events).request message replyHandler errorHandler timeout zmqSend).1 = none)

/-- The receive that the client waits for goes, and no timeout is under way. -/
def Strands (c : RequestClient) : ClientOp → Prop
  | .receive (.error _) _ => ¬ c.timeoutTimer.Scheduled ∧ c.receiving = true
  | .topicsChanged guidTopicMap => ¬ c.timeoutTimer.Scheduled ∧ c.waitingForReceive = true ∧
    c.isConnected = true ∧ newestTopic guidTopicMap ≠ some c.connectedTopic
  | _ => False

theorem request_accepted (hw : c.waitingForReceive = false) (hc : c.isConnected = true) {message : MessageVector}
    {zmqSend : Nat → Option ErrorCode} (hsend : (Socket.send message zmqSend).2 = none)
    (replyHandler errorHandler : Option Nat) (timeout : ℚ) :
    (c.request message replyHandler errorHandler timeout zmqSend).1 = none := by
  obtain ⟨s, hs⟩ := Option.isSome_iff_exists.1 hc
  rw [request]
  simp only [hw, hs, hsend, Bool.false_eq_true, if_false]
  split <;> rfl

theorem recovers_of_run (events : List ClientOp) (harr : ∀ e ∈ events, e.IsArrival)
    (h : (c.run events).waitingForReceive = false ∧ (c.run events).isConnected = c.isConnected) : c.Recovers :=
  ⟨events, harr, h.1, fun hcon _ rh eh t _ hsend => request_accepted h.1 (h.2.trans hcon) hsend rh eh t⟩

theorem recovers_of_receiving (h : c.Inv) (hrec : c.receiving = true) : c.Recovers := by
  obtain ⟨r, s, hs, hr⟩ := h.exists_awaits hrec
  refine recovers_of_run [.receive (.ok ⟨[], false⟩) true] (by simp [ClientOp.IsArrival]) ?_
  have hstep := step_cases h (.receive (.ok ⟨[], false⟩) true)
  rw [run, List.foldl_cons, List.foldl_nil]
  generalize c.step _ = c' at hstep ⊢
  cases hstep with
  | deaf hidle => rw [hrec] at hidle; cases hidle
  | part _ hmore => cases hmore
  | reply => simp [isConnected, hs]

theorem recovers_of_scheduled (h : c.timeoutTimer.Scheduled) : c.Recovers := by
  obtain ⟨i, r, timer, htake⟩ := h.exists_take
  refine recovers_of_run [.expire, .complete i] (by simp [ClientOp.IsArrival]) ?_
  have hstep := complete_step { c with timeoutTimer := c.timeoutTimer.expire } i
  rw [run, List.foldl_cons, List.foldl_cons, List.foldl_nil, step, step]
  generalize RequestClient.complete _ i = c' at hstep ⊢
  cases hstep with
  | none hnone => rw [htake] at hnone; cases hnone
  | aborted ha => rw [htake] at ha; cases ha
  | timedOut => simp [isConnected]

theorem NotStuck.recovers (h : c.Inv) (hns : c.NotStuck) : c.Recovers := by
  cases hw : c.waitingForReceive with
  | false => exact recovers_of_run [] (by simp) ⟨hw, rfl⟩
  | true =>
    rcases hns hw with hrec | hsched
    · exact recovers_of_receiving h hrec
    · exact recovers_of_scheduled hsched

theorem notStuck_iff_of_not_receiving (h : c.receiving = false) :
    c.NotStuck ↔ (c.waitingForReceive = true → c.timeoutTimer.Scheduled) := by
  simp [NotStuck, h]

/-- The socket goes, and with it the receive. -/
theorem NotStuck.drop_iff (hns : c.NotStuck) (topic : DirectoryTopic) {socket : Option Connection}
    (hs : ∀ s ∈ socket, s.socket.receives = 0) :
    NotStuck { c with socket, connectedTopic := topic } ↔
      ¬ (¬ c.timeoutTimer.Scheduled ∧ c.waitingForReceive = true ∧ c.isConnected = true) := by
  rw [notStuck_iff_of_not_receiving (receiving_eq_false_iff.2 hs)]
  show (c.waitingForReceive = true → c.timeoutTimer.Scheduled) ↔ _
  constructor
  · rintro h ⟨hsched, hw, -⟩
    exact hsched (h hw)
  · intro h hw
    by_contra hsched
    rcases hns hw with hrec | hs
    · refine h ⟨hsched, hw, ?_⟩
      rw [receiving, Option.any_eq_true] at hrec
      obtain ⟨s, hs, -⟩ := hrec
      rw [isConnected, hs]; rfl
    · exact hsched hs

theorem step_notStuck_iff (h : c.Inv) (hns : c.NotStuck) (op : ClientOp) : (c.step op).NotStuck ↔ ¬ c.Strands op := by
  have hstep := step_cases h op
  generalize c.step op = c' at hstep ⊢
  cases hstep with
  | rejected => exact iff_of_true hns id
  | accepted => exact iff_of_true (fun _ => .inl (by simp [receiving, Connection.receive, Socket.receive])) id
  | @deaf result _ hdeaf => cases result <;> simp [Strands, hdeaf, hns]
  | part haw hmore hs => exact iff_of_true (fun _ => .inl (by simp [receiving, hs.receives])) id
  | reply => exact iff_of_true (fun hw => absurd hw (by simp)) id
  | error ec haw hs =>
    rw [notStuck_iff_of_not_receiving (by simp [receiving, hs])]
    simp [Strands, haw.receiving, (h.latest haw).1]
  | kept hc hm => exact iff_of_true hns fun hst => hst.2.2.2 hm
  | moved topic hm hs =>
    rw [hns.drop_iff topic hs, Strands]
    refine not_congr ⟨?_, ?_⟩
    · rintro ⟨hsched, hw, hc⟩
      exact ⟨hsched, hw, hc, hm hc⟩
    · rintro ⟨hsched, hw, hc, -⟩
      exact ⟨hsched, hw, hc⟩
  | expire => exact iff_of_true (fun hw => (hns hw).imp id DeadlineTimer.Scheduled.expire) id
  | none => exact iff_of_true hns id
  | aborted ht =>
    refine iff_of_true (fun hw => (hns hw).imp id fun hsched => ?_) id
    exact (DeadlineTimer.scheduled_take ht).1 hsched
  | timedOut => exact iff_of_true (fun hw => absurd hw (by simp)) id

theorem not_notStuck_iff : ¬ c.NotStuck ↔
    c.waitingForReceive = true ∧ c.receiving = false ∧ c.timeoutTimer.live = [] := by
  rw [NotStuck, DeadlineTimer.scheduled_iff]
  simp

/-- No event helps a client that is stuck. -/
theorem step_stuck (h : c.Inv) (hst : ¬ c.NotStuck) (op : ClientOp) : ¬ (c.step op).NotStuck := by
  have hstep := step_cases h op
  rw [not_notStuck_iff] at hst ⊢
  obtain ⟨hw, hrec, hlive⟩ := hst
  generalize c.step op = c' at hstep ⊢
  cases hstep with
  | rejected | deaf | kept | none => exact ⟨hw, hrec, hlive⟩
  | accepted _ _ hwait => rw [hw] at hwait; cases hwait
  | part haw | reply _ haw | error _ haw => exact absurd (hrec.symm.trans haw.receiving) (by simp)
  | moved topic _ hs => exact ⟨hw, receiving_eq_false_iff.2 hs, hlive⟩
  | expire =>
    have hp := DeadlineTimer.live_expire (t := c.timeoutTimer)
    rw [hlive, List.perm_nil] at hp
    exact ⟨hw, hrec, hp⟩
  | aborted ht =>
    have hp := DeadlineTimer.live_take ht
    rw [hlive, List.nil_perm] at hp
    exact ⟨hw, hrec, hp⟩
  | timedOut ht =>
    have hp := DeadlineTimer.live_take ht
    rw [hlive, List.nil_perm] at hp
    cases hp

theorem not_recovers_of_stuck (h : c.Inv) (hst : ¬ c.NotStuck) : ¬ c.Recovers := by
  rintro ⟨events, -, hw, -⟩
  have hrun : (c.run events).Inv ∧ ¬ (c.run events).NotStuck :=
    Run.invariant (I := fun c : RequestClient => c.Inv ∧ ¬ c.NotStuck)
      (fun c op hc => ⟨hc.1.step op, step_stuck hc.1 hc.2 op⟩) ⟨h, hst⟩
  have := (not_notStuck_iff.1 hrun.2).1
  rw [hw] at this; cases this

/-- In a run every state has something to wait for, and a way out of waiting, exactly if no step strands
the client. -/
theorem notStuck_iff_not_strands (ops : List ClientOp) :
    Run.States step (fun c => c.NotStuck ∧ c.Recovers) {} ops ↔ Run.Steps step (fun c op => ¬ c.Strands op) {} ops := by
  refine Run.states_iff_steps (I := fun c => c.Inv ∧ c.NotStuck) ?_ ?_ ?_ ?_
  · exact fun c h => ⟨h.2, h.2.recovers h.1⟩
  · exact fun c op h hst => ⟨h.1.step op, (step_notStuck_iff h.1 h.2 op).2 hst⟩
  · exact fun c op h hst hP => hst ((step_notStuck_iff h.1 h.2 op).1 hP.1)
  · exact ⟨Inv.init, fun hw => absurd hw (by decide)⟩

/-- A directory that knows one provider. -/
def oneProvider : GuidTopicMap :=
  (∅ : GuidTopicMap).insert "n1".toList ⟨"t".toList, 1, .rep, "tcp://10.0.0.1:4000".toList, ∅, ∅, "n1".toList, []⟩

/-- The provider goes and comes back while a request without a timeout is pending. -/
theorem stuck_after_provider_returns :
    ¬ Run.States step (fun c => c.NotStuck ∧ c.Recovers) {}
      [.topicsChanged oneProvider, .request [[1]] (some 0) (some 1) (-1) (fun _ => none),
        .topicsChanged ∅, .topicsChanged oneProvider] := by
  intro h
  refine not_recovers_of_stuck (Inv.run _) ?_ h.last.2
  rw [not_notStuck_iff]
  decide

/-! ## Rejected requests -/

/-- `c'` is as `c` was. A reply handler matters while its request is pending. -/
structure Same (c c' : RequestClient) : Prop where
  replyHandler : c.waitingForReceive = true → c'.replyHandler = c.replyHandler
  waitingForReceive : c'.waitingForReceive = c.waitingForReceive
  socket : c'.socket = c.socket
  connectedTopic : c'.connectedTopic = c.connectedTopic
  timeoutTimer : c'.timeoutTimer = c.timeoutTimer

def Rejects (c : RequestClient) : ClientOp → Prop
  | .request message replyHandler errorHandler timeout zmqSend =>
    (c.request message replyHandler errorHandler timeout zmqSend).1 ≠ none
  | _ => False

/-- A request comes with another reply handler while the one before it is pending. -/
def Overwrites (c : RequestClient) : ClientOp → Prop
  | .request _ replyHandler _ _ _ => c.waitingForReceive = true ∧ replyHandler ≠ c.replyHandler
  | _ => False

/-- Every reply went to the handler that was passed with its request. -/
def RepliesOwn (c : RequestClient) : Prop :=
  ∀ r handler message, .reply r handler message ∈ c.callbacks → handler = r.replyHandler

/-- The reply handler in place is that of the pending request. -/
structure Delivers (c : RequestClient) : Prop where
  inv : c.Inv
  pending : c.waitingForReceive = true → ∀ r ∈ c.accepted.getLast?, c.replyHandler = r.replyHandler
  replies : c.RepliesOwn

theorem rejects_of_overwrites {op : ClientOp} (h : c.Overwrites op) : c.Rejects op := by
  cases op with
  | request message replyHandler errorHandler timeout zmqSend =>
    rw [Rejects, request, if_pos (by exact h.1)]
    simp
  | receive | topicsChanged | expire | complete => exact h.elim

theorem same_step_iff (h : c.Inv) (op : ClientOp) : (c.Rejects op → Same c (c.step op)) ↔ ¬ c.Overwrites op := by
  constructor
  · intro hsame hov
    have hkept := (hsame (rejects_of_overwrites hov)).replyHandler
    cases op with
    | request message replyHandler errorHandler timeout zmqSend =>
      rw [step, request, if_pos (by exact hov.1)] at hkept
      exact hov.2 (hkept hov.1)
    | receive | topicsChanged | expire | complete => exact hov
  · intro hov hrej
    have hstep := step_cases h op
    generalize c.step op = c' at hstep ⊢
    cases hstep with
    | rejected => exact ⟨fun hw => not_not.1 fun hne => hov ⟨hw, hne⟩, rfl, rfl, rfl, rfl⟩
    | accepted _ hacc => exact absurd hacc hrej
    | _ => exact hrej.elim

theorem RepliesOwn.error (h : c.RepliesOwn) {callbacks : List Callback}
    (hc : ∀ k ∈ callbacks, ∃ r handler ec, k = .error r handler ec) :
    RepliesOwn { c with callbacks := c.callbacks ++ callbacks } := by
  intro r handler message hk
  rcases List.mem_append.1 hk with hk | hk
  · exact h r handler message hk
  · obtain ⟨_, _, _, hk⟩ := hc _ hk
    cases hk

theorem Delivers.step (h : c.Delivers) (op : ClientOp) (hov : ¬ c.Overwrites op) : (c.step op).Delivers := by
  have hinv := h.inv.step op
  have hstep := step_cases h.inv op
  generalize c.step op = c' at hinv hstep ⊢
  cases hstep with
  | rejected =>
    refine ⟨hinv, fun hw r hr => ?_, h.replies⟩
    have hrh := not_not.1 fun hne => hov ⟨hw, hne⟩
    exact hrh.trans (h.pending hw r hr)
  | accepted sent _ hwait hs htimer =>
    refine ⟨hinv, fun _ r hr => ?_, h.replies⟩
    rw [List.getLast?_concat, Option.mem_some_iff] at hr
    rw [← hr]; rfl
  | deaf | kept | none => exact h
  | part | moved | expire | aborted => exact ⟨hinv, h.pending, h.replies⟩
  | reply message haw =>
    obtain ⟨hw, hr⟩ := h.inv.latest haw
    refine ⟨hinv, fun hw' => absurd hw' (by simp), fun r' handler m hk => ?_⟩
    rcases List.mem_append.1 hk with hk | hk
    · exact h.replies r' handler m hk
    · cases List.mem_singleton.1 hk
      exact h.pending hw _ hr
  | error ec =>
    refine ⟨hinv, h.pending, h.replies.error fun k hk => ?_⟩
    obtain ⟨handler, -, rfl⟩ := List.mem_map.1 hk
    exact ⟨_, _, _, rfl⟩
  | timedOut =>
    refine ⟨hinv, fun hw => absurd hw (by simp), h.replies.error fun k hk => ?_⟩
    exact ⟨_, _, _, List.mem_singleton.1 hk⟩

/-- In a run every rejected request leaves the client as it was, and every reply goes to the handler of its
request, exactly if no request overwrites the reply handler of a pending one. -/
theorem rejected_same_iff_not_overwrites (ops : List ClientOp) :
    Run.Steps step (fun c op => c.Rejects op → Same c (c.step op)) {} ops ∧ Run.States step RepliesOwn {} ops ↔
      Run.Steps step (fun c op => ¬ c.Overwrites op) {} ops := by
  constructor
  · rintro ⟨h, -⟩ pre op hpre
    exact (same_step_iff (Inv.run pre) op).1 (h pre op hpre)
  · intro h
    refine ⟨fun pre op hpre => (same_step_iff (Inv.run pre) op).2 (h pre op hpre), fun pre hpre => ?_⟩
    have h0 : Delivers {} := ⟨Inv.init, fun hw => absurd hw (by simp), fun r handler m hk => absurd hk (by simp)⟩
    exact (h.states (fun c op hc hov => hc.step op hov) h0 pre hpre).replies

/-- A second request is turned away, and gets the reply to the first. -/
theorem reply_to_rejected_request :
    ¬ (∀ ops, Run.Steps step (fun c op => c.Rejects op → Same c (c.step op)) {} ops ∧
      Run.States step RepliesOwn {} ops) := by
  intro h
  have hreplies := (h [.topicsChanged oneProvider, .request [[1]] (some 0) none (-1) (fun _ => none),
    .request [[2]] (some 1) none (-1) (fun _ => none), .receive (.ok ⟨[3], false⟩) true]).2.last
  have : some 1 = some 0 := hreplies ⟨0, some 0, none, -1⟩ (some 1) [[3]] (by decide)
  simp at this

end RequestClient
end A17.Dispatch
