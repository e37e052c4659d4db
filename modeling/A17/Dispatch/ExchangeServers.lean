import A17.Dispatch.Exchange

/-!
# What a server answers

A server holds the request that it has taken up until it has answered it (`ServerInv.current`). So no request is
answered twice, and what a server sees is the requests that it answers, in this order, and the pending one
(`served_in_order`), whatever happens to the clients.
-/

namespace A17.Dispatch

namespace RepSocket
variable {τ : Type} {r r' : RepSocket τ}

/-- The server answers at most the request it has taken up. -/
def Advances (r r' : RepSocket τ) : Prop :=
  r'.answered = r.answered ∧ r'.current = r.current ∨
    ∃ request reply, r.current = some request ∧ r'.current = none ∧ r'.answered = r.answered ++ [(request, reply)]

theorem advances_answer (r : RepSocket τ) (server : ReplyServer) : r.Advances (r.answer server) := by
  unfold answer
  split
  · next request reply hcurrent _ => exact .inr ⟨request, reply, hcurrent, rfl, rfl⟩
  · exact .inl ⟨rfl, rfl⟩

theorem advances_serve (r : RepSocket τ) (call : HandlerCall) : r.Advances (r.serve call) := by
  unfold serve
  split
  · exact .inl ⟨rfl, rfl⟩
  split
  · exact .inl ⟨rfl, rfl⟩
  · exact advances_answer { r with serving := _ } _

end RepSocket

namespace Exchange
variable {ι : Type} {x x' : Exchange ι}

structure ServerInv (x : Exchange ι) : Prop where
  server : ∀ a, ∃ frames, (x.servers a).Inv frames
  current : ∀ a k m, (x.servers a).current = some (k, m) →
    ∃ e, x.envelopes[k]? = some e ∧ e.message = m ∧ e.address = a ∧ e.stage = .serving
  reply : ∀ (k : Nat) (e : Envelope ι) m, x.envelopes[k]? = some e → e.stage = .reply m →
    ∃ a, ((k, e.message), m) ∈ (x.servers a).answered
  answered : ∀ a k m reply, ((k, m), reply) ∈ (x.servers a).answered →
    ∃ e, x.envelopes[k]? = some e ∧ e.message = m ∧ e.address = a ∧ (e.stage = .done ∨ e.stage = .reply reply)
  once : ∀ a, ((x.servers a).answered.map (·.1.1)).Nodup

/-- The servers and the envelopes stay as they are, but for new envelopes. -/
theorem ServerInv.append (h : x.ServerInv) (hservers : x'.servers = x.servers) {l : List (Envelope ι)}
    (hl : ∀ e ∈ l, e.stage = .request) (henvelopes : x'.envelopes = x.envelopes ++ l) : x'.ServerInv := by
  have hforth : ∀ (k : Nat) (e : Envelope ι), x.envelopes[k]? = some e → x'.envelopes[k]? = some e := by
    intro k e he
    rw [henvelopes, List.getElem?_append_left (List.getElem?_eq_some_iff.1 he).1]
    exact he
  refine ⟨fun a => ?_, fun a k m hc => ?_, fun k e m he hstage => ?_, fun a k m reply hmem => ?_, fun a => ?_⟩
  · rw [hservers]
    exact h.server a
  · rw [hservers] at hc
    obtain ⟨e, he, h'⟩ := h.current a k m hc
    exact ⟨e, hforth k e he, h'⟩
  · rw [hservers]
    rw [henvelopes, List.getElem?_append] at he
    split at he
    · exact h.reply k e m he hstage
    · have := hl e (List.mem_of_getElem? he)
      rw [hstage] at this
      cases this
  · rw [hservers] at hmem
    obtain ⟨e, he, h'⟩ := h.answered a k m reply hmem
    exact ⟨e, hforth k e he, h'⟩
  · rw [hservers]
    exact h.once a

theorem ServerInv.congr (h : x.ServerInv) (hservers : x'.servers = x.servers)
    (henvelopes : x'.envelopes = x.envelopes) : x'.ServerInv :=
  h.append hservers (l := []) (by simp) (henvelopes.trans (List.append_nil _).symm)

/-- An envelope that no server has taken up is done with. -/
theorem ServerInv.finish (h : x.ServerInv) (hservers : x'.servers = x.servers) {k : Nat} {e : Envelope ι}
    (he : x.envelopes[k]? = some e) (hserving : e.stage ≠ .serving)
    (henvelopes : x'.envelopes = x.envelopes.set k { e with stage := .done }) : x'.ServerInv := by
  have hk := (List.getElem?_eq_some_iff.1 he).1
  refine ⟨fun a => ?_, fun a j m hc => ?_, fun j e' m he' hstage => ?_, fun a j m reply hmem => ?_, fun a => ?_⟩
  · rw [hservers]
    exact h.server a
  · rw [hservers] at hc
    obtain ⟨e', he', hm, ha, hs⟩ := h.current a j m hc
    have hne : k ≠ j := by
      rintro rfl
      obtain rfl : e = e' := Option.some.inj (he.symm.trans he')
      exact hserving hs
    exact ⟨e', by rw [henvelopes, List.getElem?_set_ne hne, he'], hm, ha, hs⟩
  · rw [henvelopes] at he'
    rw [hservers]
    by_cases hne : k = j
    · subst hne
      rw [List.getElem?_set_self hk] at he'
      obtain rfl := Option.some.inj he'
      cases hstage
    · rw [List.getElem?_set_ne hne] at he'
      exact h.reply j e' m he' hstage
  · rw [hservers] at hmem
    obtain ⟨e', he', hm, ha, hs⟩ := h.answered a j m reply hmem
    by_cases hne : k = j
    · subst hne
      obtain rfl : e = e' := Option.some.inj (he.symm.trans he')
      exact ⟨{ e with stage := .done }, by rw [henvelopes, List.getElem?_set_self hk], hm, ha, .inl rfl⟩
    · exact ⟨e', by rw [henvelopes, List.getElem?_set_ne hne, he'], hm, ha, hs⟩
  · rw [hservers]
    exact h.once a

theorem ServerInv.takeUp (h : x.ServerInv) (k : Nat) : (x.takeUp k).ServerInv := by
  unfold Exchange.takeUp
  split
  · next e he =>
    split
    · next hgo =>
      obtain ⟨hrequest, hnone⟩ := hgo
      have hk := (List.getElem?_eq_some_iff.1 he).1
      have htake : ((x.servers e.address).takeUp k e.message).current = some (k, e.message) ∧
          ((x.servers e.address).takeUp k e.message).answered = (x.servers e.address).answered := by
        unfold RepSocket.takeUp
        rw [hnone]
        exact ⟨rfl, rfl⟩
      have hanswered : ∀ a, (Function.update x.servers e.address ((x.servers e.address).takeUp k e.message) a).answered
          = (x.servers a).answered := by
        intro a
        rcases eq_or_ne a e.address with rfl | hne
        · rw [Function.update_self]
          exact htake.2
        · rw [Function.update_of_ne hne]
      refine ⟨fun a => ?_, fun a j m hc => ?_, fun j e' m he' hstage => ?_, fun a j m reply hmem => ?_, fun a => ?_⟩
      · rcases eq_or_ne a e.address with rfl | hne
        · obtain ⟨frames, hinv⟩ := h.server e.address
          exact ⟨frames, by simpa using hinv.takeUp k e.message⟩
        · simpa [Function.update_of_ne hne] using h.server a
      · rcases eq_or_ne a e.address with rfl | hne
        · simp only [Function.update_self, htake.1, Option.some.injEq, Prod.mk.injEq] at hc
          obtain ⟨rfl, rfl⟩ := hc
          exact ⟨_, List.getElem?_set_self hk, rfl, rfl, rfl⟩
        · simp only [Function.update_of_ne hne] at hc
          obtain ⟨e', he', hm, ha, hs⟩ := h.current a j m hc
          have hkj : k ≠ j := by
            rintro rfl
            obtain rfl : e = e' := Option.some.inj (he.symm.trans he')
            exact hne ha.symm
          exact ⟨e', by rw [List.getElem?_set_ne hkj, he'], hm, ha, hs⟩
      · simp only [hanswered]
        by_cases hkj : k = j
        · subst hkj
          rw [List.getElem?_set_self hk] at he'
          obtain rfl := Option.some.inj he'
          cases hstage
        · rw [List.getElem?_set_ne hkj] at he'
          exact h.reply j e' m he' hstage
      · simp only [hanswered] at hmem
        obtain ⟨e', he', hm, ha, hs⟩ := h.answered a j m reply hmem
        have hkj : k ≠ j := by
          rintro rfl
          obtain rfl : e = e' := Option.some.inj (he.symm.trans he')
          rw [hrequest] at hs
          rcases hs with hs | hs <;> cases hs
        exact ⟨e', by rw [List.getElem?_set_ne hkj, he'], hm, ha, hs⟩
      · simp only [hanswered]
        exact h.once a
    · exact h
  · exact h

/-- The server at `a` has gone on: it may have answered the request it had taken up. -/
theorem advance_cases [DecidableEq ι] (h : x.ServerInv) {a : Str} {r : RepSocket Nat}
    (hadvances : (x.servers a).Advances r) :
    (r.answered = (x.servers a).answered ∧ r.current = (x.servers a).current ∧
      x.advance a r = { x with servers := Function.update x.servers a r }) ∨
    ∃ k e reply, (x.servers a).current = some (k, e.message) ∧ x.envelopes[k]? = some e ∧ e.address = a ∧
      e.stage = .serving ∧ r.current = none ∧ r.answered = (x.servers a).answered ++ [((k, e.message), reply)] ∧
      x.advance a r = { x with
        servers := Function.update x.servers a r
        envelopes := x.envelopes.set k { e with stage := .reply reply } } := by
  rcases hadvances with ⟨hanswered, hcurrent⟩ | ⟨⟨k, m⟩, reply, hcurrent, hnone, hanswered⟩
  · refine .inl ⟨hanswered, hcurrent, ?_⟩
    unfold advance
    rw [hanswered, List.getElem?_eq_none le_rfl]
  · obtain ⟨e, he, rfl, ha, hs⟩ := h.current a k m hcurrent
    refine .inr ⟨k, e, reply, hcurrent, he, ha, hs, hnone, hanswered, ?_⟩
    unfold advance
    rw [hanswered, List.getElem?_concat_length]
    dsimp only
    rw [List.modify_eq_set_getElem?, he]
    rfl

theorem ServerInv.advance [DecidableEq ι] (h : x.ServerInv) {a : Str} {r : RepSocket Nat}
    (hadvances : (x.servers a).Advances r) (hinv : ∃ frames, r.Inv frames) : (x.advance a r).ServerInv := by
  have hserver : ∀ b, ∃ frames, (Function.update x.servers a r b).Inv frames := by
    intro b
    rcases eq_or_ne b a with rfl | hne
    · rwa [Function.update_self]
    · rw [Function.update_of_ne hne]
      exact h.server b
  rcases advance_cases h hadvances with
    ⟨hanswered, hcurrent, heq⟩ | ⟨k, e, reply, hcurrent, he, rfl, hs, hnone, hanswered, heq⟩
  · have hall : ∀ b, (Function.update x.servers a r b).answered = (x.servers b).answered ∧
        (Function.update x.servers a r b).current = (x.servers b).current := by
      intro b
      rcases eq_or_ne b a with rfl | hne
      · rw [Function.update_self]
        exact ⟨hanswered, hcurrent⟩
      · rw [Function.update_of_ne hne]
        exact ⟨rfl, rfl⟩
    rw [heq]
    refine ⟨hserver, fun b k m hc => h.current b k m ((hall b).2 ▸ hc), fun k e m he hstage => ?_,
      fun b k m reply hmem => h.answered b k m reply ((hall b).1 ▸ hmem), fun b => ?_⟩
    · obtain ⟨b, hmem⟩ := h.reply k e m he hstage
      exact ⟨b, (hall b).1.symm ▸ hmem⟩
    · show ((Function.update x.servers a r b).answered.map _).Nodup
      rw [(hall b).1]
      exact h.once b
  · have hk := (List.getElem?_eq_some_iff.1 he).1
    -- what is answered already is not being served
    have hfresh : ∀ b j m reply', ((j, m), reply') ∈ (x.servers b).answered → k ≠ j := by
      rintro b j m reply' hmem rfl
      obtain ⟨e', he', -, -, hs'⟩ := h.answered b k m reply' hmem
      obtain rfl : e = e' := Option.some.inj (he.symm.trans he')
      rw [hs] at hs'
      rcases hs' with hs' | hs' <;> cases hs'
    rw [heq]
    refine ⟨hserver, fun b j m hc => ?_, fun j e' m he' hstage => ?_, fun b j m reply' hmem => ?_, fun b => ?_⟩
    · rcases eq_or_ne b e.address with rfl | hne
      · simp only [Function.update_self, hnone] at hc
        cases hc
      · simp only [Function.update_of_ne hne] at hc
        obtain ⟨e', he', hm, hb, hs'⟩ := h.current b j m hc
        have hkj : k ≠ j := by
          rintro rfl
          obtain rfl : e = e' := Option.some.inj (he.symm.trans he')
          exact hne hb.symm
        exact ⟨e', by rw [List.getElem?_set_ne hkj, he'], hm, hb, hs'⟩
    · by_cases hkj : k = j
      · subst hkj
        rw [List.getElem?_set_self hk] at he'
        obtain rfl := Option.some.inj he'
        obtain rfl : reply = m := Stage.reply.inj hstage
        refine ⟨e.address, ?_⟩
        simp [hanswered]
      · rw [List.getElem?_set_ne hkj] at he'
        obtain ⟨b, hmem⟩ := h.reply j e' m he' hstage
        refine ⟨b, ?_⟩
        rcases eq_or_ne b e.address with rfl | hne
        · simp [hanswered, hmem]
        · simpa [Function.update_of_ne hne] using hmem
    · rcases eq_or_ne b e.address with rfl | hne
      · simp only [Function.update_self, hanswered, List.mem_append, List.mem_singleton, Prod.mk.injEq] at hmem
        rcases hmem with hmem | ⟨⟨rfl, rfl⟩, rfl⟩
        · obtain ⟨e', he', h'⟩ := h.answered e.address j m reply' hmem
          exact ⟨e', by rw [List.getElem?_set_ne (hfresh _ j m reply' hmem), he'], h'⟩
        · exact ⟨_, List.getElem?_set_self hk, rfl, rfl, .inr rfl⟩
      · simp only [Function.update_of_ne hne] at hmem
        obtain ⟨e', he', h'⟩ := h.answered b j m reply' hmem
        exact ⟨e', by rw [List.getElem?_set_ne (hfresh _ j m reply' hmem), he'], h'⟩
    · rcases eq_or_ne b e.address with rfl | hne
      · simp only [Function.update_self, hanswered, List.map_append, List.map_singleton]
        refine List.nodup_append.2 ⟨h.once e.address, by simp, ?_⟩
        rintro j hj _ hk' rfl
        obtain ⟨⟨⟨j', m⟩, reply'⟩, hmem, rfl⟩ := List.mem_map.1 hj
        exact hfresh _ j' m reply' hmem (List.mem_singleton.1 hk').symm
      · simpa [Function.update_of_ne hne] using h.once b

theorem ServerInv.serve [DecidableEq ι] (h : x.ServerInv) (a : Str) (call : HandlerCall) :
    (x.servers a).Advances ((x.servers a).serve call) ∧ ∃ frames, ((x.servers a).serve call).Inv frames := by
  obtain ⟨frames, hinv⟩ := h.server a
  exact ⟨RepSocket.advances_serve _ call, hinv.serve call⟩

theorem ServerInv.reply_advances (h : x.ServerInv) (a : Str) (message : MessageVector) :
    (x.servers a).Advances ((x.servers a).reply message) ∧ ∃ frames, ((x.servers a).reply message).Inv frames := by
  obtain ⟨frames, hinv⟩ := h.server a
  exact ⟨RepSocket.advances_answer _ _, frames, hinv.answer (ReplyServer.goes_reply _ message)⟩

theorem ServerInv.fail (h : x.ServerInv) (a : Str) (ec : ErrorCode) (call : HandlerCall) :
    (x.servers a).Advances ((x.servers a).fail ec call) ∧ ∃ frames, ((x.servers a).fail ec call).Inv frames := by
  obtain ⟨frames, hinv⟩ := h.server a
  exact ⟨RepSocket.advances_answer _ _, frames, hinv.answer (ReplyServer.goes_error _ ec call)⟩

/-- The servers do not depend on what the clients' handlers do. -/
theorem ServerInv.step [DecidableEq ι] (h : x.ServerInv) (op : ExchangeOp ι) : (x.step op).ServerInv := by
  cases op with
  | request i message replyHandler errorHandler timeout sends =>
    unfold Exchange.step Exchange.request
    dsimp only
    split
    · exact h.append rfl (by simp) rfl
    · exact h.congr rfl rfl
  | topicsChanged i m => exact h.congr rfl rfl
  | expire i => exact h.congr rfl rfl
  | complete i k => exact h.congr rfl rfl
  | receive i returns =>
    unfold Exchange.step Exchange.receive
    dsimp only
    split
    · split
      · exact h
      · exact h.congr rfl rfl
    · exact h
  | fail i ec => exact h.congr rfl rfl
  | takeUp k => exact h.takeUp k
  | serve a call => exact h.advance (h.serve a call).1 (h.serve a call).2
  | reply a message => exact h.advance (h.reply_advances a message).1 (h.reply_advances a message).2
  | failServer a ec call => exact h.advance (h.fail a ec call).1 (h.fail a ec call).2
  | deliver k =>
    unfold Exchange.step Exchange.deliver
    dsimp only
    split
    · next e he =>
      split
      · next message hstage => exact h.finish rfl he (by simp [hstage]) rfl
      · exact h
    · exact h
  | lose k =>
    unfold Exchange.step Exchange.lose
    dsimp only
    split
    · next e he =>
      split
      · exact h
      · next hserving => exact h.finish rfl he hserving rfl
    · exact h

theorem serverInv_new (errorHandlers : Str → Option Nat) : (new errorHandlers : Exchange ι).ServerInv where
  server a := ⟨[], RepSocket.inv_new (errorHandlers a)⟩
  current a k m h := by cases h
  reply k e m h := by cases h
  answered a k m reply h := by cases h
  once a := List.nodup_nil

variable [DecidableEq ι]

/-- What a server sees is the requests that it answered, each followed by its reply, and the one that is pending. All of
them were sent to it, and it answers each once. -/
theorem served_in_order (errorHandlers : Str → Option Nat) (ops : List (ExchangeOp ι)) (address : Str) :
    let x := ops.foldl step (new errorHandlers : Exchange ι)
    let r := x.servers address
    RepEvent.completed r.server.log = r.answered.flatMap RepSocket.exchange ++ r.pendingRequest ∧
      (r.answered.map (·.1.1)).Nodup ∧
      (∀ answered ∈ r.answered, ∃ e, x.envelopes[answered.1.1]? = some e ∧ e.address = address ∧
        e.message = answered.1.2) ∧
      ∀ current ∈ r.current, current.1 ∉ r.answered.map (·.1.1) ∧ ∃ e, x.envelopes[current.1]? = some e ∧
        e.address = address ∧ e.message = current.2 := by
  have h : (ops.foldl step (new errorHandlers : Exchange ι)).ServerInv :=
    Run.invariant (fun _ op hx => hx.step op) (serverInv_new errorHandlers)
  obtain ⟨frames, hinv⟩ := h.server address
  refine ⟨hinv.log, h.once address, ?_, ?_⟩
  · rintro ⟨⟨k, m⟩, reply⟩ hmem
    obtain ⟨e, he, hm, ha, -⟩ := h.answered address k m reply hmem
    exact ⟨e, he, ha, hm⟩
  · rintro ⟨k, m⟩ hcurrent
    obtain ⟨e, he, hm, ha, hserving⟩ := h.current address k m hcurrent
    refine ⟨fun hmem => ?_, e, he, ha, hm⟩
    obtain ⟨⟨⟨k', m'⟩, reply⟩, hanswered, rfl⟩ := List.mem_map.1 hmem
    obtain ⟨e', he', -, -, hstage⟩ := h.answered address k' m' reply hanswered
    obtain rfl := Option.some.inj (he.symm.trans he')
    rcases hstage with hstage | hstage
    all_goals
      rw [hserving] at hstage
      cases hstage

end Exchange
end A17.Dispatch
