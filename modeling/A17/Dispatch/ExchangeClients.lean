import A17.Dispatch.Exchange

/-!
# What a client waits for

A client that waits has one request out on its current socket, its last (`ClientInv.out`), or it is reading the reply to
it. So what arrives there is read as the reply to that request, and goes to its handler.
-/

namespace A17.Dispatch

/-! ### What a client does -/

namespace RequestClient
variable {c c' : RequestClient}

/-- The frames of a reply that have arrived. -/
def held (c : RequestClient) : MessageVector :=
  match c.socket with
  | some s => s.socket.receivedMessage
  | none => []

/-- The step gives no reply to a handler. -/
structure Silent (c c' : RequestClient) : Prop where
  accepted : c'.accepted = c.accepted
  callbacks : ∀ r handler message, .reply r handler message ∈ c'.callbacks → .reply r handler message ∈ c.callbacks

/-- The client goes on waiting for what it waits for. -/
structure Keeps (c c' : RequestClient) : Prop extends c.Silent c' where
  waiting : c'.waitingForReceive = c.waitingForReceive
  held : c'.held = c.held

theorem request_rejected {message : MessageVector} {replyHandler errorHandler : Option Nat} {timeout : ℚ}
    {zmqSend : Nat → Option ErrorCode}
    (h : (c.request message replyHandler errorHandler timeout zmqSend).1 ≠ none) :
    c.Keeps (c.request message replyHandler errorHandler timeout zmqSend).2 := by
  rcases c.request_cases message replyHandler errorHandler timeout zmqSend with
    ⟨ec, sent, heq⟩ | ⟨s, sent, timer, -, -, -, heq⟩
  · rw [heq]
    exact ⟨⟨rfl, fun _ _ _ => id⟩, rfl, rfl⟩
  · rw [heq] at h
    exact absurd rfl h

theorem request_accepted_eq {message : MessageVector} {replyHandler errorHandler : Option Nat} {timeout : ℚ}
    {zmqSend : Nat → Option ErrorCode}
    (h : (c.request message replyHandler errorHandler timeout zmqSend).1 = none) :
    let c' := (c.request message replyHandler errorHandler timeout zmqSend).2
    c.waitingForReceive = false ∧ c.socket.isSome = true ∧ c'.waitingForReceive = true ∧
      c'.accepted = c.accepted ++ [c.nextRequest replyHandler errorHandler timeout] ∧ c'.held = c.held ∧
      c'.callbacks = c.callbacks := by
  rcases c.request_cases message replyHandler errorHandler timeout zmqSend with
    ⟨ec, sent, heq⟩ | ⟨s, sent, timer, hwait, hs, -, heq⟩
  · rw [heq] at h
    cases h
  · rw [heq]
    refine ⟨hwait, by rw [hs]; rfl, rfl, rfl, ?_, rfl⟩
    unfold held
    rw [hs]
    rfl

theorem keeps_refl (c : RequestClient) : c.Keeps c := ⟨⟨rfl, fun _ _ _ => id⟩, rfl, rfl⟩

/-- A client that keeps its socket. -/
theorem keeps_of_not_renews {op : ClientOp} (hop : op = .expire ∨ (∃ m, op = .topicsChanged m) ∨ ∃ k, op = .complete k)
    (h : c.renews op = false) : c.Keeps (c.step op) := by
  rcases hop with rfl | ⟨m, rfl⟩ | ⟨k, rfl⟩
  · exact ⟨⟨rfl, fun _ _ _ => id⟩, rfl, rfl⟩
  · have hstep := c.onDirectoryTopicsChanged_step m
    unfold step
    dsimp only
    generalize c.onDirectoryTopicsChanged m = c' at hstep ⊢
    cases hstep with
    | kept => exact keeps_refl c
    | moved topic hmove hs =>
      obtain ⟨⟨hcon, -⟩, hnew⟩ : (c.isConnected = true ∧ m.isEmpty = false) ∧
          newestTopic m = some c.connectedTopic := by
        simpa [renews] using h
      exact absurd hnew (hmove hcon)
  · unfold step complete
    dsimp only
    cases htake : c.timeoutTimer.take k with
    | none => exact keeps_refl c
    | some e =>
      obtain ⟨⟨r, success⟩, timer⟩ := e
      obtain rfl : success = false := by simpa [renews, htake] using h
      exact ⟨⟨rfl, fun _ _ _ => id⟩, rfl, rfl⟩

/-- A client that gives up its socket. -/
theorem silent_of_renews {op : ClientOp} (h : c.renews op = true) : c.Silent (c.step op) ∧ (c.step op).held = [] := by
  cases op with
  | request => cases h
  | receive => cases h
  | expire => cases h
  | topicsChanged m =>
    unfold step onDirectoryTopicsChanged
    dsimp only
    split
    · rw [disconnect_eq]
      exact ⟨⟨rfl, fun _ _ _ => id⟩, rfl⟩
    · next hm =>
      split
      · next hnone => exact absurd (newestTopic_eq_none.1 hnone) hm
      · next topic htopic =>
        rw [connect_eq, if_neg]
        · exact ⟨⟨rfl, fun _ _ _ => id⟩, rfl⟩
        · intro hkeep
          obtain ⟨hcon, rfl⟩ : c.isConnected = true ∧ topic = c.connectedTopic := by simpa using hkeep
          simp [renews, hcon, htopic, hm] at h
  | complete k =>
    unfold step complete
    dsimp only
    cases htake : c.timeoutTimer.take k with
    | none => simp [renews, htake] at h
    | some e =>
      obtain ⟨⟨r, success⟩, timer⟩ := e
      obtain rfl : success = true := by simpa [renews, htake] using h
      dsimp only
      rw [onTimeout, if_neg (by simp), reconnect_eq]
      refine ⟨⟨rfl, fun r' handler message hmem => ?_⟩, ?_⟩
      · simpa [cleanupRequest] using hmem
      · unfold held
        cases c.socket <;> simp [cleanupRequest]

theorem keeps_error (c : RequestClient) (ec : ErrorCode) (returns : Bool) :
    c.Keeps (c.onReceive (.error ec) returns) := by
  unfold onReceive
  split
  · exact keeps_refl c
  next s hs =>
  split
  · exact keeps_refl c
  · cases he : s.socket.errorHandler <;> simp only [Socket.onReceive, he]
    · exact ⟨⟨rfl, fun _ _ _ => id⟩, rfl, by simp [held, hs]⟩
    · exact ⟨⟨rfl, fun _ _ _ hmem => by simpa using hmem⟩, rfl, by simp [held, hs]⟩

/-- A part that another one follows. -/
theorem receive_more (hrec : c.receiving = true) {part : Part} (hmore : part.more = true) (returns : Bool) :
    let c' := c.onReceive (.ok part) returns
    c'.accepted = c.accepted ∧ c'.callbacks = c.callbacks ∧ c'.waitingForReceive = c.waitingForReceive ∧
      c'.held = c.held ++ part.kept := by
  cases hs : c.socket with
  | none => simp [receiving, hs] at hrec
  | some s =>
    have h0 : s.socket.receives ≠ 0 := by simpa [receiving, hs, Nat.pos_iff_ne_zero] using hrec
    unfold onReceive
    rw [hs]
    dsimp only
    rw [if_neg h0, Socket.onReceive_more _ hmore]
    exact ⟨rfl, rfl, rfl, by simp [held, hs]⟩

/-- The last part, with a handler that returns. -/
theorem receive_last (h : c.Inv) (hrec : c.receiving = true) {part : Part} (hmore : part.more = false) {handler : Nat}
    (hh : c.replyHandler = some handler) : ∃ r, c.accepted.getLast? = some r ∧
      let c' := c.onReceive (.ok part) true
      c'.accepted = c.accepted ∧ c'.callbacks = c.callbacks ++ [.reply r c.replyHandler (c.held ++ part.kept)] ∧
      c'.waitingForReceive = false ∧ c'.held = [] := by
  obtain ⟨r, haw⟩ := h.exists_awaits hrec
  obtain ⟨-, hlatest⟩ := h.latest haw
  obtain ⟨s, hs, hr⟩ := haw
  have h0 : s.socket.receives ≠ 0 := by simp [hr.receives]
  refine ⟨r, hlatest, ?_⟩
  unfold onReceive
  rw [hs]
  dsimp only
  rw [if_neg h0, Socket.onReceive_last _ hmore, hr.handler]
  refine ⟨rfl, ?_, rfl, ?_⟩
  · simp [sendReplyToHandler, cleanupRequest, held, hs]
  · simp [held, hh, Socket.handled]

end RequestClient

namespace Exchange
variable {ι : Type} {x x' : Exchange ι}

/-! ### Envelopes -/

/-- Of the envelopes of a client only the stages change, and what is done with stays so. -/
structure Restaged (i : ι) (x x' : Exchange ι) : Prop where
  forth : ∀ (k : Nat) (e : Envelope ι), x.envelopes[k]? = some e →
    ∃ stage : Stage, x'.envelopes[k]? = some { e with stage }
  back : ∀ (k : Nat) (e' : Envelope ι), x'.envelopes[k]? = some e' → e'.client = i →
    ∃ stage : Stage, x.envelopes[k]? = some { e' with stage } ∧ (stage = .done → e'.stage = .done)

variable {i : ι}

theorem restaged_of_eq (h : x'.envelopes = x.envelopes) : Restaged i x x' :=
  ⟨fun _ e he => ⟨e.stage, h ▸ he⟩, fun _ e he _ => ⟨e.stage, h ▸ he, id⟩⟩

theorem restaged_of_append {e : Envelope ι} (he : e.client ≠ i) (h : x'.envelopes = x.envelopes ++ [e]) :
    Restaged i x x' := by
  constructor
  · intro k e' he'
    refine ⟨e'.stage, ?_⟩
    rw [h, List.getElem?_append_left (List.getElem?_eq_some_iff.1 he').1]
    exact he'
  · intro k e' he' hclient
    rw [h, List.getElem?_append] at he'
    split at he'
    · exact ⟨e'.stage, he', id⟩
    · obtain rfl := List.mem_singleton.1 (List.mem_of_getElem? he')
      exact absurd hclient he

theorem restaged_of_set {k : Nat} {e : Envelope ι} {stage : Stage} (he : x.envelopes[k]? = some e)
    (hdone : e.stage = .done → stage = .done) (h : x'.envelopes = x.envelopes.set k { e with stage }) :
    Restaged i x x' := by
  have hk := (List.getElem?_eq_some_iff.1 he).1
  constructor
  · intro j e' he'
    rw [h]
    by_cases hjk : k = j
    · subst hjk
      obtain rfl : e = e' := Option.some.inj (he.symm.trans he')
      exact ⟨stage, by rw [List.getElem?_set_self hk]⟩
    · exact ⟨e'.stage, by rw [List.getElem?_set_ne hjk, he']⟩
  · intro j e' he' _
    rw [h] at he'
    by_cases hjk : k = j
    · subst hjk
      rw [List.getElem?_set_self hk] at he'
      obtain rfl := Option.some.inj he'
      exact ⟨e.stage, he, hdone⟩
    · rw [List.getElem?_set_ne hjk] at he'
      exact ⟨e'.stage, he', id⟩

/-- What is answered stays answered. -/
theorem Answers.mono {i : ι} {r : Request} {reply : MessageVector} (h : x.Answers i r reply)
    (hanswered : ∀ a, ∀ p ∈ (x.servers a).answered, p ∈ (x'.servers a).answered)
    (henvelopes : ∀ (k : Nat) (e : Envelope ι), x.envelopes[k]? = some e →
      ∃ stage : Stage, x'.envelopes[k]? = some { e with stage }) : x'.Answers i r reply := by
  obtain ⟨a, k, e, hmem, he, hclient, hrequest⟩ := h
  obtain ⟨stage, he'⟩ := henvelopes k e he
  exact ⟨a, k, { e with stage }, hanswered a _ hmem, he', hclient, hrequest⟩

/-! ### The clients -/

/-- On its way, at the server, or coming back. -/
def Out (x : Exchange ι) (i : ι) (k : Nat) (e : Envelope ι) : Prop :=
  x.envelopes[k]? = some e ∧ e.client = i ∧ e.socket = x.sockets i ∧ e.stage ≠ .done

/-- Of the reply to the last request, some frames have arrived and the other parts wait. -/
def Reading (x : Exchange ι) (i : ι) : Prop :=
  (x.clients i).waitingForReceive = true ∧ ∃ r reply frames, (x.clients i).accepted.getLast? = some r ∧
    x.Answers i r reply ∧ Socket.parts reply = Socket.opened frames ++ x.inbox i ∧
    (x.clients i).held = Socket.nonEmpty frames

structure ClientInv (x : Exchange ι) (i : ι) : Prop where
  inv : (x.clients i).Inv
  past : ∀ (k : Nat) (e : Envelope ι), x.envelopes[k]? = some e → e.client = i → e.socket ≤ x.sockets i
  out : ∀ k e, x.Out i k e → (x.clients i).waitingForReceive = true ∧
    (x.clients i).accepted.getLast? = some e.request ∧ (x.clients i).held = [] ∧ x.inbox i = []
  unique : ∀ k k' e e', x.Out i k e → x.Out i k' e' → k = k'
  reading : (x.clients i).held = [] ∧ x.inbox i = [] ∨ x.Reading i
  callbacks : ∀ r handler message, .reply r handler message ∈ (x.clients i).callbacks →
    ∃ reply, x.Answers i r reply ∧ message = Socket.nonEmpty reply

/-- The client keeps its socket, and nothing happens to it. -/
theorem ClientInv.keeps (h : x.ClientInv i) (hinv : (x'.clients i).Inv) (hkeeps : (x.clients i).Keeps (x'.clients i))
    (hsockets : x'.sockets i = x.sockets i) (hinbox : x'.inbox i = x.inbox i)
    (hanswered : ∀ a, ∀ p ∈ (x.servers a).answered, p ∈ (x'.servers a).answered) (henvelopes : Restaged i x x') :
    x'.ClientInv i := by
  have hout : ∀ k e', x'.Out i k e' → ∃ stage, x.Out i k { e' with stage } := by
    rintro k e' ⟨he', hclient, hsocket, hstage⟩
    obtain ⟨stage, he, hdone⟩ := henvelopes.back k e' he' hclient
    exact ⟨stage, he, hclient, hsocket.trans hsockets, fun habs => hstage (hdone habs)⟩
  refine ⟨hinv, fun k e' he' hclient => ?_, fun k e' hk => ?_, fun k k' e e' hk hk' => ?_, ?_, ?_⟩
  · obtain ⟨stage, he, -⟩ := henvelopes.back k e' he' hclient
    rw [hsockets]
    have hpast := h.past k _ he hclient
    exact hpast
  · obtain ⟨stage, hk⟩ := hout k e' hk
    obtain ⟨hwait, hlast, hheld, hin⟩ := h.out k _ hk
    exact ⟨hkeeps.waiting.trans hwait, (congrArg _ hkeeps.accepted).trans hlast, hkeeps.held.trans hheld,
      hinbox.trans hin⟩
  · obtain ⟨stage, hk⟩ := hout k e hk
    obtain ⟨stage', hk'⟩ := hout k' e' hk'
    exact h.unique k k' _ _ hk hk'
  · rw [hkeeps.held, hinbox]
    refine h.reading.imp_right ?_
    rintro ⟨hwait, r, reply, frames, hlast, hanswers, hparts, hheld⟩
    refine ⟨hkeeps.waiting.trans hwait, r, reply, frames, ?_, hanswers.mono hanswered henvelopes.forth, ?_, ?_⟩
    · rw [hkeeps.accepted]
      exact hlast
    · rw [hinbox]
      exact hparts
    · exact hkeeps.held.trans hheld
  · intro r handler message hmem
    obtain ⟨reply, hanswers, hmessage⟩ := h.callbacks r handler message (hkeeps.callbacks r handler message hmem)
    exact ⟨reply, hanswers.mono hanswered henvelopes.forth, hmessage⟩

/-- The client has a new socket, or none. -/
theorem ClientInv.renews (h : x.ClientInv i) (hinv : (x'.clients i).Inv) (hsilent : (x.clients i).Silent (x'.clients i))
    (hheld : (x'.clients i).held = []) (hsockets : x'.sockets i = x.sockets i + 1) (hinbox : x'.inbox i = [])
    (hservers : x'.servers = x.servers) (henvelopes : x'.envelopes = x.envelopes) : x'.ClientInv i := by
  have hnone : ∀ k e, ¬ x'.Out i k e := by
    rintro k e ⟨he, hclient, hsocket, -⟩
    rw [henvelopes] at he
    have := h.past k e he hclient
    omega
  refine ⟨hinv, fun k e he hclient => ?_, fun k e hk => absurd hk (hnone k e),
    fun k k' e e' hk => absurd hk (hnone k e), .inl ⟨hheld, hinbox⟩, fun r handler message hmem => ?_⟩
  · rw [henvelopes] at he
    have := h.past k e he hclient
    omega
  · obtain ⟨reply, hanswers, hmessage⟩ := h.callbacks r handler message (hsilent.callbacks r handler message hmem)
    refine ⟨reply, hanswers.mono (fun a p hp => ?_) (restaged_of_eq (i := i) henvelopes).forth, hmessage⟩
    rwa [hservers]

/-- A request is accepted: the client waited for nothing, so that nothing is out on its socket. -/
theorem ClientInv.accept (h : x.ClientInv i) (hinv : (x'.clients i).Inv) {e : Envelope ι} (hclient : e.client = i)
    (hsocket : e.socket = x.sockets i) (hidle : (x.clients i).waitingForReceive = false)
    (hwait : (x'.clients i).waitingForReceive = true)
    (haccepted : (x'.clients i).accepted = (x.clients i).accepted ++ [e.request])
    (hheld : (x'.clients i).held = (x.clients i).held) (hcallbacks : (x'.clients i).callbacks = (x.clients i).callbacks)
    (hsockets : x'.sockets = x.sockets) (hinbox : x'.inbox = x.inbox) (hservers : x'.servers = x.servers)
    (henvelopes : x'.envelopes = x.envelopes ++ [e]) : x'.ClientInv i := by
  have hold : ∀ (k : Nat) (e' : Envelope ι), x'.envelopes[k]? = some e' →
      x.envelopes[k]? = some e' ∨ k = x.envelopes.length ∧ e' = e := by
    intro k e' he'
    rw [henvelopes, List.getElem?_append] at he'
    split at he'
    · exact .inl he'
    · obtain ⟨hk, rfl⟩ := List.getElem?_eq_some_iff.1 he'
      have hk' : k - x.envelopes.length < 1 := hk
      exact .inr ⟨by omega, by simp⟩
  have hnone : ∀ k e', ¬ x.Out i k e' := by
    intro k e' hk
    have := (h.out k e' hk).1
    rw [hidle] at this
    cases this
  have hout : ∀ k e', x'.Out i k e' → k = x.envelopes.length ∧ e' = e := by
    rintro k e' ⟨he', hc, hs, hstage⟩
    rcases hold k e' he' with hmem | hnew
    · exact absurd ⟨hmem, hc, hs.trans (congrFun hsockets i), hstage⟩ (hnone k e')
    · exact hnew
  obtain ⟨hheld0, hinbox0⟩ : (x.clients i).held = [] ∧ x.inbox i = [] := by
    refine h.reading.resolve_right ?_
    rintro ⟨hw, -⟩
    rw [hidle] at hw
    cases hw
  have hforth : ∀ (k : Nat) (e' : Envelope ι), x.envelopes[k]? = some e' →
      ∃ stage : Stage, x'.envelopes[k]? = some { e' with stage } := by
    intro k e' he'
    refine ⟨e'.stage, ?_⟩
    rw [henvelopes, List.getElem?_append_left (List.getElem?_eq_some_iff.1 he').1]
    exact he'
  refine ⟨hinv, fun k e' he' hc => ?_, fun k e' hk => ?_, fun k k' e₁ e₂ hk hk' => ?_, .inl ?_,
    fun r handler message hmem => ?_⟩
  · rw [hsockets]
    rcases hold k e' he' with hmem | ⟨-, rfl⟩
    · exact h.past k e' hmem hc
    · exact hsocket.le
  · obtain ⟨-, rfl⟩ := hout k e' hk
    refine ⟨hwait, ?_, hheld.trans hheld0, (congrFun hinbox i).trans hinbox0⟩
    rw [haccepted]
    simp
  · rw [(hout k e₁ hk).1, (hout k' e₂ hk').1]
  · exact ⟨hheld.trans hheld0, (congrFun hinbox i).trans hinbox0⟩
  · rw [hcallbacks] at hmem
    obtain ⟨reply, hanswers, hmessage⟩ := h.callbacks r handler message hmem
    refine ⟨reply, hanswers.mono (fun a p hp => ?_) hforth, hmessage⟩
    rwa [hservers]

/-- A client that reads has nothing out: the reply that it reads was to the only request. -/
theorem ClientInv.not_out_of_inbox (h : x.ClientInv i) (hne : x.inbox i ≠ []) (k : Nat) (e : Envelope ι) :
    ¬ x.Out i k e := fun hk => hne (h.out k e hk).2.2.2

/-- A part of the reply is received. -/
theorem ClientInv.receive [DecidableEq ι] (h : x.ClientInv i) {returns : Bool} (hq : ¬ x.Throws (.receive i returns)) :
    (x.receive i returns).ClientInv i := by
  unfold Exchange.receive
  cases hrec : (x.clients i).receiving with
  | false => exact h
  | true =>
  cases hin : x.inbox i with
  | nil => exact h
  | cons part inbox =>
  have hne : x.inbox i ≠ [] := by simp [hin]
  have hnone := h.not_out_of_inbox hne
  obtain ⟨hwait, r, reply, frames, hlast, hanswers, hparts, hheld⟩ := h.reading.resolve_left fun habs => hne habs.2
  rw [hin] at hparts
  have hinv := h.inv.step (.receive (.ok part) returns)
  have hkept : (x.clients i).held ++ part.kept = Socket.nonEmpty (frames ++ [part.frame]) := by
    rw [hheld]
    exact Reception.kept_append ({ message := frames } : Reception Unit Nat) part
  simp only [if_true]
  cases hmore : part.more with
  | true =>
    obtain ⟨haccepted, hcallbacks, hwaiting, hheld'⟩ := RequestClient.receive_more hrec hmore returns
    have hpart : part = ⟨part.frame, true⟩ := by rw [← hmore]
    refine ⟨?_, h.past, fun k e hk => absurd hk (hnone k e), fun k k' e e' hk => absurd hk (hnone k e), .inr ?_, ?_⟩
    · simp only [Function.update_self]
      exact hinv
    · refine ⟨?_, r, reply, frames ++ [part.frame], ?_, hanswers, ?_, ?_⟩
      · simpa using hwaiting.trans hwait
      · simpa [haccepted] using hlast
      · simp only [Function.update_self]
        rw [hparts, Socket.opened_concat, List.append_assoc, List.singleton_append, ← hpart]
      · simpa using hheld'.trans hkept
    · intro r' handler message hmem
      simp only [Function.update_self, hcallbacks] at hmem
      exact h.callbacks r' handler message hmem
  | false =>
    obtain ⟨rfl, hsome⟩ : returns = true ∧ (x.clients i).replyHandler ≠ none := by
      refine ⟨?_, fun habs => hq ⟨⟨part, by simp [hin], hmore⟩, .inr habs⟩⟩
      by_contra hfalse
      exact hq ⟨⟨part, by simp [hin], hmore⟩, .inl (by simpa using hfalse)⟩
    obtain ⟨handler, hhandler⟩ := Option.ne_none_iff_exists'.1 hsome
    obtain ⟨r', hlast', haccepted, hcallbacks, hwaiting, hheld'⟩ :=
      RequestClient.receive_last h.inv hrec hmore hhandler
    obtain rfl : r = r' := Option.some.inj (hlast.symm.trans hlast')
    have hpart : part = ⟨part.frame, false⟩ := by rw [← hmore]
    have hsplit : Socket.parts reply ++ [] = Socket.opened frames ++ ⟨part.frame, false⟩ :: inbox := by
      rw [List.append_nil, ← hpart]
      exact hparts
    obtain ⟨hmessage, rfl⟩ := Socket.parts_split hsplit
    refine ⟨?_, h.past, fun k e hk => absurd hk (hnone k e), fun k k' e e' hk => absurd hk (hnone k e), .inl ?_, ?_⟩
    · simp only [Function.update_self]
      exact hinv
    · simpa using hheld'
    · intro r' handler' message hmem
      simp only [Function.update_self, hcallbacks, List.mem_append, List.mem_singleton, Callback.reply.injEq] at hmem
      rcases hmem with hmem | ⟨rfl, -, rfl⟩
      · exact h.callbacks r' handler' message hmem
      · exact ⟨reply, hanswers, hkept.trans hmessage⟩

end Exchange
end A17.Dispatch
