import A17.Dispatch.ExchangeClients
import A17.Dispatch.ExchangeServers

/-!
# The right reply

Clients and servers together: a reply handler is given the reply to the request it is called for
(`correlated_of_not_throws`). What a handler that throws leaves in the socket would come with the next reply.
-/

namespace A17.Dispatch
namespace Exchange
variable {ι : Type} {x x' : Exchange ι} {i : ι}

/-- What a step adds to the answered requests stays. -/
theorem mem_answered_advance [DecidableEq ι] (h : x.ServerInv) {a : Str} {r : RepSocket Nat}
    (hadvances : (x.servers a).Advances r) (b : Str) {p : (Nat × MessageVector) × MessageVector}
    (hp : p ∈ (x.servers b).answered) : p ∈ ((x.advance a r).servers b).answered := by
  rcases advance_cases h hadvances with ⟨hanswered, -, heq⟩ | ⟨k, e, reply, -, -, rfl, -, -, hanswered, heq⟩
  all_goals
    rw [heq]
    show p ∈ (Function.update x.servers _ r b).answered
  · rcases eq_or_ne b a with rfl | hne
    · rwa [Function.update_self, hanswered]
    · rwa [Function.update_of_ne hne]
  · rcases eq_or_ne b e.address with rfl | hne
    · rw [Function.update_self, hanswered]
      exact List.mem_append_left _ hp
    · rwa [Function.update_of_ne hne]

theorem restaged_advance [DecidableEq ι] (h : x.ServerInv) {a : Str} {r : RepSocket Nat}
    (hadvances : (x.servers a).Advances r) : Restaged i x (x.advance a r) := by
  rcases advance_cases h hadvances with ⟨-, -, heq⟩ | ⟨k, e, reply, -, he, -, hs, -, -, heq⟩
  · rw [heq]
    exact restaged_of_eq rfl
  · rw [heq]
    refine restaged_of_set he (fun hdone => ?_) rfl
    rw [hs] at hdone
    cases hdone

theorem advance_clients [DecidableEq ι] (x : Exchange ι) (a : Str) (r : RepSocket Nat) :
    (x.advance a r).clients = x.clients ∧ (x.advance a r).sockets = x.sockets ∧ (x.advance a r).inbox = x.inbox := by
  unfold advance
  split <;> exact ⟨rfl, rfl, rfl⟩

structure Inv (x : Exchange ι) : Prop where
  clients : ∀ i, x.ClientInv i
  servers : x.ServerInv

theorem Inv.advance [DecidableEq ι] (h : x.Inv) {a : Str} {r : RepSocket Nat}
    (hadvances : (x.servers a).Advances r) (hinv : ∃ frames, r.Inv frames) : (x.advance a r).Inv := by
  obtain ⟨hclients, hsockets, hinbox⟩ := x.advance_clients a r
  refine ⟨fun i => (h.clients i).keeps ?_ ?_ (congrFun hsockets i) (congrFun hinbox i)
    (fun b p hp => mem_answered_advance h.servers hadvances b hp) (restaged_advance h.servers hadvances),
    h.servers.advance hadvances hinv⟩
  · rw [hclients]
    exact (h.clients i).inv
  · rw [hclients]
    exact RequestClient.keeps_refl _

/-- A client's own step, which the others do not notice. -/
theorem Inv.client [DecidableEq ι] (h : x.Inv) (hself : x'.ClientInv i) (hservers : x'.ServerInv)
    (hclients : ∀ j, j ≠ i → x'.clients j = x.clients j) (hsockets : ∀ j, j ≠ i → x'.sockets j = x.sockets j)
    (hinbox : ∀ j, j ≠ i → x'.inbox j = x.inbox j) (hservers' : x'.servers = x.servers)
    (henvelopes : ∀ j, j ≠ i → Restaged j x x') : x'.Inv := by
  refine ⟨fun j => ?_, hservers⟩
  rcases eq_or_ne j i with rfl | hne
  · exact hself
  · refine (h.clients j).keeps ?_ ?_ (hsockets j hne) (hinbox j hne) (fun a p hp => ?_) (henvelopes j hne)
    · rw [hclients j hne]
      exact (h.clients j).inv
    · rw [hclients j hne]
      exact RequestClient.keeps_refl _
    · rwa [hservers']

theorem Inv.turn [DecidableEq ι] (h : x.Inv) (i : ι) {op : ClientOp}
    (hop : op = .expire ∨ (∃ m, op = .topicsChanged m) ∨ ∃ k, op = .complete k) : (x.turn i op).Inv := by
  have hinv := (h.clients i).inv.step op
  have hself : (x.turn i op).ClientInv i := by
    unfold Exchange.turn
    cases hrenews : (x.clients i).renews op with
    | false =>
      refine (h.clients i).keeps ?_ ?_ rfl rfl (fun _ _ => id) (restaged_of_eq rfl)
      · simpa using hinv
      · simpa using RequestClient.keeps_of_not_renews hop hrenews
    | true =>
      obtain ⟨hsilent, hheld⟩ := RequestClient.silent_of_renews hrenews
      refine (h.clients i).renews ?_ ?_ ?_ ?_ ?_ rfl rfl
      · simpa using hinv
      · simpa using hsilent
      · simpa using hheld
      · simp
      · simp
  refine h.client hself (h.servers.congr rfl rfl) ?_ ?_ ?_ rfl
    fun _ _ => restaged_of_eq rfl
  · exact fun j hj => Function.update_of_ne hj _ _
  · intro j hj
    unfold Exchange.turn
    dsimp only
    split
    · exact Function.update_of_ne hj _ _
    · rfl
  · intro j hj
    unfold Exchange.turn
    dsimp only
    split
    · exact Function.update_of_ne hj _ _
    · rfl

theorem Inv.request [DecidableEq ι] (h : x.Inv) (i : ι) (message : MessageVector)
    (replyHandler errorHandler : Option Nat) (timeout : ℚ) (sends : Bool) :
    (x.request i message replyHandler errorHandler timeout sends).Inv := by
  have hinv := (h.clients i).inv.step (.request message replyHandler errorHandler timeout
    fun _ => if sends then none else some EAGAIN)
  unfold RequestClient.step at hinv
  unfold Exchange.request
  cases hec : ((x.clients i).request message replyHandler errorHandler timeout
    fun _ => if sends then none else some EAGAIN).1 with
  | some ec =>
    have hkeeps := RequestClient.request_rejected (hec ▸ Option.some_ne_none ec)
    simp only [hec]
    refine h.client (i := i) ((h.clients i).keeps ?_ ?_ rfl rfl (fun _ _ => id) (restaged_of_eq rfl))
      (h.servers.congr rfl rfl)
      (fun j hj => Function.update_of_ne hj _ _) (fun _ _ => rfl) (fun _ _ => rfl) rfl
      fun _ _ => restaged_of_eq rfl
    · simpa using hinv
    · simpa using hkeeps
  | none =>
    obtain ⟨hidle, hsocket, hwait, haccepted, hheld, hcallbacks⟩ := RequestClient.request_accepted_eq hec
    obtain ⟨connection, hconnection⟩ := Option.isSome_iff_exists.1 hsocket
    simp only [hec, hconnection]
    refine h.client (i := i) ((h.clients i).accept ?_ rfl rfl hidle ?_ ?_ ?_ ?_ rfl rfl rfl rfl)
      (h.servers.append rfl (by simp) rfl) (fun j hj => Function.update_of_ne hj _ _) (fun _ _ => rfl)
      (fun _ _ => rfl) rfl fun j hj => restaged_of_append hj.symm rfl
    · simpa using hinv
    · simpa using hwait
    · simpa using haccepted
    · simpa using hheld
    · simpa using hcallbacks

theorem Inv.receive [DecidableEq ι] (h : x.Inv) {returns : Bool} (hq : ¬ x.Throws (.receive i returns)) :
    (x.receive i returns).Inv := by
  have hself := (h.clients i).receive hq
  unfold Exchange.receive at hself ⊢
  split
  · cases hin : x.inbox i with
    | nil => exact h
    | cons part inbox =>
      simp only [hin] at hself
      rw [if_pos ‹_›] at hself
      exact h.client hself (h.servers.congr rfl rfl)
        (fun j hj => Function.update_of_ne hj _ _) (fun _ _ => rfl) (fun j hj => Function.update_of_ne hj _ _) rfl
        fun _ _ => restaged_of_eq rfl
  · exact h

theorem Inv.fail [DecidableEq ι] (h : x.Inv) (i : ι) (ec : ErrorCode) :
    Inv { x with clients := Function.update x.clients i ((x.clients i).onReceive (.error ec) true) } := by
  have hinv := (h.clients i).inv.step (.receive (.error ec) true)
  refine h.client (i := i) ((h.clients i).keeps ?_ ?_ rfl rfl (fun _ _ => id) (restaged_of_eq rfl))
    (h.servers.congr rfl rfl)
    (fun j hj => Function.update_of_ne hj _ _) (fun _ _ => rfl) (fun _ _ => rfl) rfl fun _ _ => restaged_of_eq rfl
  · simp only [Function.update_self]
    exact hinv
  · simpa using RequestClient.keeps_error (x.clients i) ec true

theorem Inv.takeUp [DecidableEq ι] (h : x.Inv) (k : Nat) : (x.takeUp k).Inv := by
  refine ⟨fun i => ?_, h.servers.takeUp k⟩
  unfold Exchange.takeUp
  split
  · next e he =>
    split
    · next hgo =>
      refine (h.clients i).keeps (h.clients i).inv (RequestClient.keeps_refl _) rfl rfl (fun a p hp => ?_)
        (restaged_of_set he (fun hdone => ?_) rfl)
      · show p ∈ (Function.update x.servers e.address _ a).answered
        rcases eq_or_ne a e.address with rfl | hne
        · unfold RepSocket.takeUp
          rw [Function.update_self, hgo.2]
          exact hp
        · rwa [Function.update_of_ne hne]
      · rw [hgo.1] at hdone
        cases hdone
    · exact h.clients i
  · exact h.clients i

theorem Inv.lose (h : x.Inv) (k : Nat) : (x.lose k).Inv := by
  unfold Exchange.lose
  split
  · next e he =>
    split
    · exact h
    · next hserving =>
      exact ⟨fun i => (h.clients i).keeps (h.clients i).inv (RequestClient.keeps_refl _) rfl rfl (fun _ _ => id)
        (restaged_of_set he (fun _ => rfl) rfl), h.servers.finish rfl he hserving rfl⟩
  · exact h

/-- A reply arrives on the socket that its request was sent on: to the last request, the client waits for it. -/
theorem ClientInv.deliver (h : x.ClientInv i) {k : Nat} {e : Envelope ι} (hk : x.Out i k e) {message : MessageVector}
    (hanswers : x.Answers i e.request message) (hclients : x'.clients i = x.clients i)
    (hsockets : x'.sockets i = x.sockets i) (hinbox : x'.inbox i = x.inbox i ++ Socket.parts message)
    (hservers : x'.servers = x.servers) (henvelopes : x'.envelopes = x.envelopes.set k { e with stage := .done }) :
    x'.ClientInv i := by
  obtain ⟨hwait, hlast, hheld, hin⟩ := h.out k e hk
  have hlen := (List.getElem?_eq_some_iff.1 hk.1).1
  have hrestaged : Restaged i x x' := restaged_of_set hk.1 (fun _ => rfl) henvelopes
  have hanswered : ∀ a, ∀ p ∈ (x.servers a).answered, p ∈ (x'.servers a).answered := by
    intro a p hp
    rwa [hservers]
  have hnone : ∀ j e', ¬ x'.Out i j e' := by
    rintro j e' ⟨he', hclient, hsocket, hstage⟩
    obtain ⟨stage, he, hdone⟩ := hrestaged.back j e' he' hclient
    obtain rfl := h.unique j k _ e ⟨he, hclient, hsocket.trans hsockets, fun habs => hstage (hdone habs)⟩ hk
    rw [henvelopes, List.getElem?_set_self hlen] at he'
    obtain rfl := Option.some.inj he'
    exact hstage rfl
  refine ⟨hclients ▸ h.inv, fun j e' he' hclient => ?_, fun j e' hj => absurd hj (hnone j e'),
    fun j j' e₁ e₂ hj => absurd hj (hnone j e₁), .inr ⟨?_, e.request, message, [], ?_, ?_, ?_, ?_⟩,
    fun r handler m hmem => ?_⟩
  · obtain ⟨stage, he, -⟩ := hrestaged.back j e' he' hclient
    rw [hsockets]
    have hpast := h.past j _ he hclient
    exact hpast
  · rw [hclients]
    exact hwait
  · rw [hclients]
    exact hlast
  · exact hanswers.mono hanswered hrestaged.forth
  · rw [hinbox, hin]
    rfl
  · rw [hclients]
    exact hheld
  · rw [hclients] at hmem
    obtain ⟨reply, hreply, hmessage⟩ := h.callbacks r handler m hmem
    exact ⟨reply, hreply.mono hanswered hrestaged.forth, hmessage⟩

theorem Inv.deliver [DecidableEq ι] (h : x.Inv) (k : Nat) : (x.deliver k).Inv := by
  unfold Exchange.deliver
  split
  · next e he =>
    split
    · next message hstage =>
      have hserving : e.stage ≠ .serving := by
        rw [hstage]
        simp
      obtain ⟨a, hmem⟩ := h.servers.reply k e message he hstage
      refine h.client (i := e.client) ?_ (h.servers.finish rfl he hserving rfl) (fun _ _ => rfl) (fun _ _ => rfl)
        (fun j hj => ?_) rfl fun j _ => restaged_of_set he (fun _ => rfl) rfl
      · by_cases hsocket : e.socket = x.sockets e.client
        · refine (h.clients e.client).deliver
            ⟨he, rfl, hsocket, by rw [hstage]; simp⟩ ⟨a, k, e, hmem, he, rfl, rfl⟩ rfl rfl ?_ rfl rfl
          simp [hsocket]
        · refine (h.clients e.client).keeps (h.clients e.client).inv (RequestClient.keeps_refl _) rfl ?_
            (fun _ _ => id) (restaged_of_set he (fun _ => rfl) rfl)
          simp [hsocket]
      · dsimp only
        split
        · exact Function.update_of_ne hj _ _
        · rfl
    · exact h
  · exact h

theorem Inv.step [DecidableEq ι] (h : x.Inv) {op : ExchangeOp ι} (hq : ¬ x.Throws op) : (x.step op).Inv := by
  cases op with
  | request i message replyHandler errorHandler timeout sends => exact h.request ..
  | topicsChanged i m => exact h.turn i (.inr (.inl ⟨m, rfl⟩))
  | expire i => exact h.turn i (.inl rfl)
  | complete i k => exact h.turn i (.inr (.inr ⟨k, rfl⟩))
  | receive i returns => exact h.receive hq
  | fail i ec => exact h.fail i ec
  | takeUp k => exact h.takeUp k
  | serve a call => exact h.advance (h.servers.serve a call).1 (h.servers.serve a call).2
  | reply a message => exact h.advance (h.servers.reply_advances a message).1 (h.servers.reply_advances a message).2
  | failServer a ec call => exact h.advance (h.servers.fail a ec call).1 (h.servers.fail a ec call).2
  | deliver k => exact h.deliver k
  | lose k => exact h.lose k

theorem inv_new (errorHandlers : Str → Option Nat) : (new errorHandlers : Exchange ι).Inv where
  servers := serverInv_new errorHandlers
  clients i := {
    inv := RequestClient.Inv.init
    past := fun k e h => by cases h
    out := fun k e h => by cases h.1
    unique := fun k k' e e' h => by cases h.1
    reading := .inl ⟨rfl, rfl⟩
    callbacks := fun r handler message h => by cases h }

variable [DecidableEq ι]

/-- If no handler of a reply throws, each is given the reply to the request it is called for, whatever is lost, late,
timed out or moved to another server. -/
theorem correlated_of_not_throws (errorHandlers : Str → Option Nat) {ops : List (ExchangeOp ι)}
    (h : Run.Steps step (fun x op => ¬ x.Throws op) (new errorHandlers) ops) :
    (ops.foldl step (new errorHandlers)).Correlated :=
  fun i => ((h.invariant (fun _ _ hx hop => hx.step hop) (inv_new errorHandlers)).clients i).callbacks

theorem correlated_after_reply :
    let ops : List (ExchangeOp Bool) := [.topicsChanged true RequestClient.oneProvider,
      .request true [[1]] (some 0) none (-1) true, .takeUp 0,
      .serve "tcp://10.0.0.1:4000".toList ⟨some [[2], [3]], false⟩, .deliver 0, .receive true true, .receive true true]
    let x := ops.foldl step (new fun _ => none)
    (x.clients true).callbacks = [.reply ⟨0, some 0, none, -1⟩ (some 0) [[2], [3]]] ∧ x.Correlated := by
  refine ⟨by decide, correlated_of_not_throws (fun _ => none) ?_⟩
  simp only [Run.steps_cons, Run.steps_nil, Throws, not_false_eq_true, and_true, true_and, Bool.true_eq_false,
    false_or, not_and]
  exact ⟨fun _ => by decide, fun _ => by decide⟩

end Exchange
end A17.Dispatch
