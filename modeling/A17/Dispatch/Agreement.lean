import A17.Dispatch.Network

/-!
# Discovery agreement

In every reachable state of the network, what a directory `b` holds under another directory's guid is
what that directory provided when it sent the last of its datagrams that `b` has handled; nothing
before the first and after its exit. The invariant (`Net.Inv`) ties what `b` holds to the part of the
sender's chain it has handled.
-/

open Std

namespace A17.Dispatch
open CString

structure TopicContent where
  name : Str
  socketType : SocketType
  address : Str
  inputTypes : TypeSet
  outputTypes : TypeSet
deriving DecidableEq

def DirectoryTopic.content (t : DirectoryTopic) : TopicContent :=
  ⟨t.name, t.socketType, t.address, t.inputTypes, t.outputTypes⟩

def contents (m : ExtTreeMap Str DirectoryTopic) (n : Str) : Option TopicContent := m[n]?.map DirectoryTopic.content

def Directory.heldUnder (d : Directory) (g n : Str) : Option TopicContent :=
  (d.topics.entry n g).map DirectoryTopic.content

/-- What is known of the sender `guid` after its datagrams `handled`: its own topics when it sent the
last of them, nothing if there is none or it was the exit. -/
def known (guid : Str) (handled : List Datagram) (n : Str) : Option TopicContent :=
  match handled.getLast? with
  | none => none
  | some datagram => if datagram.text = exitText guid then none else contents datagram.localTopics n

section
variable {ι : Type} {guid : ι → Str} {own : ι → OwnAddress} {a b : ι} {d : Directory}

/-! ### Handling one datagram -/

theorem exitText_eq_message {g : Str} (hg : Token g) : exitText g = Directory.message g DISCOVERY_EXIT [] := by
  simp [exitText, Directory.message, cString_eq_self hg.nul]

theorem message_ne_exitText {g args : Str} {c : Char} (hg : Token g) (ha : ∀ x ∈ args, isprint x = true)
    (hne : args ≠ []) : Directory.message g c args ≠ exitText g := by
  intro h0
  have hl := congrArg List.length h0
  rw [Directory.length_message hg.print ha, if_neg hne] at hl
  simp [exitText] at hl
  omega

theorem Announced.print {t : DirectoryTopic} (ht : Announced guid own a t) : ∀ x ∈ t.info, isprint x = true := by
  rw [ht.info]; exact buildTopicInfo_print t.socketType ht.wellFormed

theorem Announced.length_lt {t : DirectoryTopic} (ht : Announced guid own a t) : t.name.length < t.info.length := by
  rw [ht.info, buildTopicInfo]; simp

theorem Link.wire {m : ExtTreeMap Str DirectoryTopic} {x : Datagram} (hx : Link guid own a m x)
    (hg : Token (guid a)) :
    Event.sender x.text = guid a ∧ x.text.length ≤ EVENT_BUFFER_SIZE ∧ x.text ≠ exitText (guid a) := by
  cases hx with
  | announce t ht hm =>
    have hne : t.info ≠ [] := List.length_pos_iff.1 (by have := ht.length_lt; omega)
    exact ⟨Directory.sender_message hg.print hg.space (by decide) ht.print, ht.fits,
      message_ne_exitText hg ht.print hne⟩
  | retract t ht =>
    have hn := ht.wellFormed.name
    refine ⟨Directory.sender_message hg.print hg.space (by decide) hn.print, ?_,
      message_ne_exitText hg hn.print hn.ne_nil⟩
    -- the announcement, which fits, is longer
    have hfits := ht.fits
    have hlt := ht.length_lt
    have hne : t.info ≠ [] := List.length_pos_iff.1 (by omega)
    rw [Directory.length_message hg.print ht.print, if_neg hne] at hfits
    rw [Directory.length_message hg.print hn.print, if_neg hn.ne_nil]
    omega
  | search names hn hb =>
    have hpos : names ≠ [] := List.length_pos_iff.1 hb.pos
    have hprint := Directory.intercalate_names_print hn
    rw [Directory.searchText_eq_message hn hpos hg.print]
    refine ⟨Directory.sender_message hg.print hg.space (by decide) hprint, ?_,
      message_ne_exitText hg hprint (Directory.intercalate_names_ne_nil hn hpos)⟩
    rw [← Directory.searchText_eq_message hn hpos hg.print]
    exact hb.fits.le

theorem held_add {t : DirectoryTopic} (now : Int) {g : Str} (hg : g ≠ d.topics.myGuid) (n : Str) :
    let t' := Directory.topicAt now t.name t.socketType t.address t.inputTypes t.outputTypes g
    ((d.topics.add t').2.1.entry n g).map DirectoryTopic.content =
      if t.name = n then
        if d.topics.Accepts t' then some t.content else (d.topics.entry t.name g).map DirectoryTopic.content
      else (d.topics.entry n g).map DirectoryTopic.content := by
  intro t'
  have hguid : t'.guid ≠ d.topics.myGuid := hg
  rw [d.topics.add_of_other hguid, DirectoryTopicStore.entry_addNetwork]
  have hkey : (t'.name = n ∧ t'.guid = g) ↔ t.name = n := ⟨fun h => h.1, fun h => ⟨h, rfl⟩⟩
  simp only [hkey]
  by_cases hn : t.name = n
  · subst hn
    by_cases hacc : d.topics.Accepts t'
    · rw [if_pos ⟨rfl, hacc⟩, if_pos rfl, if_pos hacc]; rfl
    · rw [if_neg fun h => hacc h.2, if_pos rfl, if_neg hacc]
  · rw [if_neg fun h => hn h.1, if_neg hn]

theorem held_announce {m : ExtTreeMap Str DirectoryTopic} {t : DirectoryTopic} (now : Int) {g : Str}
    (hg : g ≠ d.topics.myGuid) (hm : ∀ t', m[t.name]? = some t' → t' = t) (hheld : d.heldUnder g = contents m)
    (n : Str) :
    ((d.topics.add (Directory.topicAt now t.name t.socketType t.address t.inputTypes t.outputTypes g)).2.1.entry
      n g).map DirectoryTopic.content = contents (m.insert t.name t) n := by
  have hn := congrFun hheld n
  unfold Directory.heldUnder at hn
  refine (held_add now hg n).trans ?_
  rw [contents, ExtTreeMap.find_insert]
  by_cases hname : t.name = n
  · subst hname
    rw [if_pos rfl, if_pos rfl]
    cases hmt : m[t.name]? with
    | none =>
      rw [contents, hmt] at hn
      rw [if_pos]
      · rfl
      · intro old ho
        have ho' : d.topics.entry t.name g = some old := ho
        rw [ho'] at hn
        cases hn
    | some t' =>
      -- what is held has the same address, so it stays, and is the same
      rw [contents, hmt, hm t' hmt] at hn
      rw [if_neg, hn]
      intro hacc
      obtain ⟨old, ho, hcont⟩ := Option.map_eq_some_iff.1 hn
      exact hacc old ho (congrArg TopicContent.address hcont)
  · rw [if_neg hname, if_neg hname, hn]
    rfl

/-- Handling the next datagram of a sender brings the receiver from what the datagram before it told
to what this one tells. -/
theorem Link.receive {m : ExtTreeMap Str DirectoryTopic} {x : Datagram} (hx : Link guid own a m x)
    (hg : Token (guid a)) (hgb : Token (guid b)) (hab : guid a ≠ guid b) (hb : Node guid own b d) (now : Int)
    (hm : d.heldUnder (guid a) = contents m) : (d.receive now x.text).heldUnder (guid a) = contents x.localTopics := by
  have hne : guid a ≠ cString d.myGuid := by rw [hb.myGuid, cString_eq_self hgb.nul]; exact hab
  have hba : b ≠ a := fun h => hab (by rw [h])
  have hown : guid a ≠ d.topics.myGuid := by rw [hb.inv.guid, hb.myGuid]; exact hab
  obtain ⟨-, hfits, -⟩ := hx.wire hg
  rw [Directory.receive_eq, List.take_of_length_le hfits]
  funext n
  have hmn := congrFun hm n
  unfold Directory.heldUnder at hmn ⊢
  cases hx with
  | announce t ht hm' =>
    dsimp only
    rw [ht.info, Directory.decode_announcement t.socketType hg hne ht.wellFormed,
      d.handle_announcement now t.socketType ht.wellFormed (hb.ownAddress ▸ ht.network b hba)]
    obtain ⟨sent, hs⟩ := d.add_snd now t.name t.socketType t.address t.inputTypes t.outputTypes (guid a)
    rw [hs]
    exact held_announce now hown hm' hm n
  | retract t ht =>
    have hn := ht.wellFormed.name
    dsimp only
    rw [Directory.decode_message hg.print hg.space rfl (by decide) hn.print hne, if_neg hn.ne_nil,
      List.splitOn_eq_singleton hn.space]
    refine (congrArg (Option.map _) (d.topics.entry_remove (guid a) t.name n (guid a))).trans ?_
    rw [contents, ExtTreeMap.find_erase]
    by_cases hnn : t.name = n
    · rw [if_pos ⟨hnn, rfl⟩, if_pos hnn]
    · rw [if_neg fun h => hnn h.1, if_neg hnn]
      exact hmn
  | search names hn hbatch =>
    dsimp only
    rw [Directory.decode_searchText hn (List.length_pos_iff.1 hbatch.pos) hg.print hg.space hne]
    obtain ⟨sent, hs⟩ := d.onlySent_foldl_searchReply names
    rw [Directory.handle, hs]
    exact hmn

theorem receive_exit (hg : Token (guid a)) (hgb : Token (guid b)) (hab : guid a ≠ guid b)
    (hlen : (exitText (guid a)).length ≤ EVENT_BUFFER_SIZE) (hb : Node guid own b d) (now : Int) :
    (d.receive now (exitText (guid a))).heldUnder (guid a) = fun _ => none := by
  have hne : guid a ≠ cString d.myGuid := by rw [hb.myGuid, cString_eq_self hgb.nul]; exact hab
  funext n
  rw [Directory.receive_eq, List.take_of_length_le hlen, exitText_eq_message hg,
    Directory.decode_message hg.print hg.space rfl (by decide) (by simp) hne, Directory.heldUnder]
  refine (congrArg (Option.map _) (d.topics.entry_evict (guid a) n (guid a))).trans ?_
  rw [if_pos rfl]
  rfl

/-! ### The log of a sender -/

/-- Everything `a` has sent: a chain, and the exit once it is destroyed. -/
def Log (guid : ι → Str) (own : ι → OwnAddress) (a : ι) (alive : Bool) (d : Directory) : Prop :=
  ∃ l, Chain guid own a ∅ l d.topics.localTopics ∧
    d.sent = l ++ if alive then [] else [⟨exitText (guid a), d.topics.localTopics⟩]

theorem Log.tells {d' : Directory} (h : Log guid own a true d) (ht : Tells guid own a d d') :
    Log guid own a true d' := by
  obtain ⟨l, hc, hs⟩ := h
  obtain ⟨l', hs', hc'⟩ := ht
  exact ⟨l ++ l', hc.append hc', by rw [hs', hs]; simp⟩

theorem Log.destroy (h : Log guid own a true d) (hg : d.myGuid = guid a) : Log guid own a false d.destroy := by
  obtain ⟨l, hc, hs⟩ := h
  refine ⟨l, hc, ?_⟩
  rw [Directory.destroy, Directory.send_, hs, hg]
  simp [exitText]

theorem Chain.split {m m' : ExtTreeMap Str DirectoryTopic} {l l₁ l₂ : List Datagram} {x : Datagram}
    (h : Chain guid own a m l m') (hl : l = l₁ ++ x :: l₂) :
    ∃ m₁, Chain guid own a m l₁ m₁ ∧ Link guid own a m₁ x := by
  induction h generalizing l₂ with
  | nil => simp at hl
  | @snoc m' l y h hx ih =>
    rcases List.eq_nil_or_concat l₂ with rfl | ⟨l₂, z, rfl⟩
    · obtain ⟨rfl, hy⟩ := List.append_inj' hl rfl
      obtain rfl : y = x := by simpa using hy
      exact ⟨m', h, hx⟩
    · rw [List.concat_eq_append, ← List.cons_append, ← List.append_assoc] at hl
      exact ih (List.append_inj' hl rfl).1

theorem known_of_chain (hg : Token (guid a)) {l : List Datagram} {m : ExtTreeMap Str DirectoryTopic}
    (h : Chain guid own a ∅ l m) : known (guid a) l = contents m := by
  funext n
  cases h with
  | nil => simp [known, contents]
  | snoc h hx => simp [known, (hx.wire hg).2.2]

theorem Log.next {alive : Bool} (h : Log guid own a alive d) (hg : Token (guid a)) {k : Nat} {x : Datagram}
    (hx : d.sent[k]? = some x) :
    (∃ m, Link guid own a m x ∧ known (guid a) (d.sent.take k) = contents m) ∨ x.text = exitText (guid a) := by
  obtain ⟨l, hc, hs⟩ := h
  by_cases hk : k < l.length
  · left
    rw [hs, List.getElem?_append_left hk, List.getElem?_eq_some_iff] at hx
    obtain ⟨_, hx⟩ := hx
    have hsplit : l = l.take k ++ x :: l.drop (k + 1) := by
      rw [← hx, List.getElem_cons_drop, List.take_append_drop]
    obtain ⟨m, hm, hlink⟩ := hc.split hsplit
    refine ⟨m, hlink, ?_⟩
    rw [hs, List.take_append_of_le_length hk.le]
    exact known_of_chain hg hm
  · right
    rw [hs, List.getElem?_append_right (Nat.not_lt.1 hk)] at hx
    cases alive with
    | true => simp at hx
    | false =>
      have := List.mem_of_getElem? hx
      rw [if_neg (by simp), List.mem_singleton] at this
      rw [this]

end

/-! ### The invariant of the network -/

namespace Net
variable {ι : Type} [DecidableEq ι]

/-- What a receiver holds of a sender is what it has handled of the sender's log. -/
structure Inv (guid : ι → Str) (own : ι → OwnAddress) (net : Net ι) : Prop where
  node : ∀ a, Node guid own a (net.dirs a)
  log : ∀ a, Log guid own a (net.alive a) (net.dirs a)
  le : ∀ a b, net.delivered b a ≤ (net.dirs a).sent.length
  held : ∀ a b, a ≠ b →
    (net.dirs b).heldUnder (guid a) = known (guid a) ((net.dirs a).sent.take (net.delivered b a))

namespace Inv
variable {guid : ι → Str} {own : ι → OwnAddress} {net : Net ι}

omit [DecidableEq ι] in
theorem of_init (guid : ι → Str) (own : ι → OwnAddress) : (init guid own).Inv guid own where
  node a := Node.of_new guid own a
  log a := ⟨[], .nil _, rfl⟩
  le a b := Nat.zero_le _
  held a b _ := by
    funext n
    simp [init, Directory.heldUnder, Directory.new, DirectoryTopicStore.new, DirectoryTopicStore.entry, known]

theorem update (h : net.Inv guid own) (b : ι) {d' : Directory} {alive : Bool} {f : ι → ι → Nat}
    (hsent : ∃ l, d'.sent = (net.dirs b).sent ++ l) (hnode : Node guid own b d') (hlog : Log guid own b alive d')
    (hle : ∀ a c, f c a ≤ (net.dirs a).sent.length) (hf : ∀ c, c ≠ b → f c = net.delivered c)
    (hheld : ∀ a, a ≠ b → d'.heldUnder (guid a) = known (guid a) ((net.dirs a).sent.take (f b a))) :
    Inv guid own ⟨Function.update net.dirs b d', Function.update net.alive b alive, f⟩ := by
  obtain ⟨l, hl⟩ := hsent
  -- a longer log has the same prefix
  have htake : ∀ a k, k ≤ (net.dirs a).sent.length →
      (Function.update net.dirs b d' a).sent.take k = (net.dirs a).sent.take k := by
    intro a k hk
    by_cases ha : a = b
    · subst ha
      rw [Function.update_self, hl, List.take_append_of_le_length hk]
    · rw [Function.update_of_ne ha]
  refine ⟨fun a => ?_, fun a => ?_, fun a c => ?_, fun a c hac => ?_⟩
  · by_cases ha : a = b
    · subst ha; simpa using hnode
    · simpa [Function.update_of_ne ha] using h.node a
  · by_cases ha : a = b
    · subst ha; simpa using hlog
    · simpa [Function.update_of_ne ha] using h.log a
  · refine (hle a c).trans ?_
    by_cases ha : a = b
    · subst ha; simp [hl]
    · simp [Function.update_of_ne ha]
  · dsimp only
    rw [htake a _ (hle a c)]
    by_cases hc : c = b
    · subst hc
      rw [Function.update_self]
      exact hheld a hac
    · rw [Function.update_of_ne hc, hf c hc]
      exact h.held a c hac

section
variable (h : net.Inv guid own) (hguid : ∀ a, Token (guid a)) (hinj : Function.Injective guid)
include h hguid hinj

theorem act (b : ι) (op : DirectoryOp) (hop : (NetOp.act b op).Ok guid own) : (net.step (.act b op)).Inv guid own := by
  rw [step]
  split
  swap
  · exact h
  next halive =>
  obtain ⟨htells, hnode⟩ := (h.node b).step (hguid b) hop
  have hlog := h.log b
  rw [halive] at hlog
  have hheld : ∀ a, a ≠ b → ((net.dirs b).step op).heldUnder (guid a) = (net.dirs b).heldUnder (guid a) := by
    intro a ha
    funext n
    have hg : guid a ≠ guid b := fun h0 => ha (hinj h0)
    rw [Directory.heldUnder, Directory.heldUnder, (h.node b).step_entry_other hop hg]
  have hnet := h.update b (f := net.delivered) (htells.imp fun l hl => hl.1) hnode (hlog.tells htells)
    (fun a c => h.le a c) (fun c _ => rfl) fun a ha => (hheld a ha).trans (h.held a b ha)
  rw [← halive, Function.update_eq_self] at hnet
  exact hnet

omit hinj [DecidableEq ι] in
theorem wire_of_sent (hlen : ∀ a, (exitText (guid a)).length ≤ EVENT_BUFFER_SIZE) {a : ι} {k : Nat} {x : Datagram}
    (hx : (net.dirs a).sent[k]? = some x) : Event.sender x.text = guid a ∧ x.text.length ≤ EVENT_BUFFER_SIZE := by
  rcases (h.log a).next (hguid a) hx with ⟨m, hlink, -⟩ | hexit
  · exact ⟨(hlink.wire (hguid a)).1, (hlink.wire (hguid a)).2.1⟩
  · rw [hexit, exitText_eq_message (hguid a)]
    refine ⟨Directory.sender_message (hguid a).print (hguid a).space (by decide) (by simp), ?_⟩
    rw [← exitText_eq_message (hguid a)]
    exact hlen a

/-- Handling the next datagram of `a` changes what is held of `a`, and of nobody else. -/
theorem held_receive (hlen : ∀ a, (exitText (guid a)).length ≤ EVENT_BUFFER_SIZE) {a b c : ι} (now : Int)
    {x : Datagram} (hx : (net.dirs a).sent[net.delivered b a]? = some x) (hcb : c ≠ b) :
    ((net.dirs b).receive now x.text).heldUnder (guid c) =
      known (guid c) ((net.dirs c).sent.take
        (Function.update (net.delivered b) a (net.delivered b a + 1) c)) := by
  by_cases hca : c = a
  · subst hca
    have hcb' : guid c ≠ guid b := fun h0 => hcb (hinj h0)
    rw [Function.update_self, List.take_add_one, hx]
    rcases (h.log c).next (hguid c) hx with ⟨m, hlink, hm⟩ | hexit
    · rw [hlink.receive (hguid c) (hguid b) hcb' (h.node b) now ((h.held c b hcb).trans hm)]
      funext n
      simp [known, (hlink.wire (hguid c)).2.2]
    · rw [hexit, receive_exit (hguid c) (hguid b) hcb' (hlen c) (h.node b) now]
      funext n
      simp [known, hexit]
  · obtain ⟨hsender, hfits⟩ := h.wire_of_sent hguid hlen hx
    rw [Function.update_of_ne hca, ← h.held c b hcb]
    funext n
    have hne : guid c ≠ Event.sender x.text := by rw [hsender]; exact fun h0 => hca (hinj h0)
    rw [Directory.heldUnder, Directory.heldUnder, Directory.receive_eq, List.take_of_length_le hfits,
      Directory.handle_entry_other (h.node b).inv now hne]

theorem deliver (hlen : ∀ a, (exitText (guid a)).length ≤ EVENT_BUFFER_SIZE) (b a : ι) (now : Int) :
    (net.step (.deliver b a now)).Inv guid own := by
  rw [step]
  split
  · exact h
  next x hx =>
  split
  swap
  · exact h
  next halive =>
  obtain ⟨htells, hnode⟩ := (h.node b).receive now x.text
  have hlog := h.log b
  rw [halive] at hlog
  have hk : net.delivered b a < (net.dirs a).sent.length := (List.getElem?_eq_some_iff.1 hx).1
  have hnet := h.update b (f := Function.update net.delivered b
      (Function.update (net.delivered b) a (net.delivered b a + 1))) (htells.imp fun l hl => hl.1) hnode
    (hlog.tells htells) (fun a' c => ?_) (fun c hc => Function.update_of_ne hc ..) fun c hc => ?_
  · rw [← halive, Function.update_eq_self] at hnet
    exact hnet
  · by_cases hc : c = b
    · subst hc
      rw [Function.update_self]
      by_cases ha : a' = a
      · subst ha; rw [Function.update_self]; exact hk
      · rw [Function.update_of_ne ha]; exact h.le a' c
    · rw [Function.update_of_ne hc]; exact h.le a' c
  · rw [Function.update_self]
    exact h.held_receive hguid hinj hlen now hx hc

omit hguid hinj in
theorem destroy (b : ι) : (net.step (.destroy b)).Inv guid own := by
  rw [step]
  split
  swap
  · exact h
  next halive =>
  have hlog := h.log b
  rw [halive] at hlog
  exact h.update b (f := net.delivered) ⟨_, rfl⟩ ((h.node b).onlySent ⟨_, rfl⟩) (hlog.destroy (h.node b).myGuid)
    (fun a c => h.le a c) (fun c _ => rfl) fun a ha => h.held a b ha

end

theorem run (hguid : ∀ a, Token (guid a)) (hinj : Function.Injective guid)
    (hlen : ∀ a, (exitText (guid a)).length ≤ EVENT_BUFFER_SIZE) {ops : List (NetOp ι)}
    (hops : ∀ op ∈ ops, op.Ok guid own) : ((init guid own).run ops).Inv guid own := by
  induction ops using List.reverseRecOn with
  | nil => exact of_init guid own
  | append_singleton ops op ih =>
    have h := ih fun op' h' => hops op' (by simp [h'])
    rw [run_concat]
    cases op with
    | act b op => exact h.act hguid hinj b op (hops _ (by simp))
    | deliver b a now => exact h.deliver hguid hinj hlen b a now
    | destroy b => exact h.destroy b

end Inv

/-- In every reachable state, what `b` holds under `a`'s guid are `a`'s own topics at the moment it sent
the last of its datagrams that `b` has handled; nothing if there is none, or if it was the exit. -/
theorem discovery_agreement (guid : ι → Str) (own : ι → OwnAddress) (hguid : ∀ a, Token (guid a))
    (hinj : Function.Injective guid) (hlen : ∀ a, (exitText (guid a)).length ≤ EVENT_BUFFER_SIZE)
    (ops : List (NetOp ι)) (hops : ∀ op ∈ ops, op.Ok guid own) :
    let net := (init guid own).run ops
    ∀ a b, a ≠ b → ∀ n, (net.dirs b).heldUnder (guid a) n =
      known (guid a) ((net.dirs a).sent.take (net.delivered b a)) n := by
  intro net a b hab n
  exact congrFun ((Inv.run hguid hinj hlen hops).held a b hab) n

/-! Two directories on 10.0.0.0/8. -/

def twoGuids (b : Bool) : Str := if b then "n2".toList else "n1".toList

def twoOwn (_ : Bool) : OwnAddress := ⟨0x0a000000#32, 0xff000000#32⟩

def announceOps : List (NetOp Bool) :=
  [.act false (.add 1 "t".toList .pub "tcp://10.0.0.1:4000".toList ∅ ∅ "n1".toList), .deliver true false 2]

theorem announceOps_ok : ∀ op ∈ announceOps, op.Ok twoGuids twoOwn := by
  intro op hop
  rcases List.mem_cons.1 hop with rfl | hop
  · exact ⟨rfl, rfl, ⟨by decide, by decide, writable_empty, writable_empty⟩, by decide, by decide⟩
  · rw [List.mem_singleton.1 hop]; trivial

theorem discovery_agreement_one_topic :
    let net := (init twoGuids twoOwn).run announceOps
    ∀ n, (net.dirs true).heldUnder (twoGuids false) n =
      known (twoGuids false) ((net.dirs false).sent.take (net.delivered true false)) n :=
  discovery_agreement twoGuids twoOwn (by decide) (by decide) (by decide) announceOps announceOps_ok false true
    (by decide)

/-- After the exit nothing is held any more, though the directory still had its topics when it sent it:
the topics at the last datagram sent, all of them handled, are not what is held. -/
theorem exit_not_held :
    let ops := announceOps ++ [.destroy false, .deliver true false 3]
    let net := (init twoGuids twoOwn).run ops
    (∀ op ∈ ops, op.Ok twoGuids twoOwn) ∧ net.delivered true false = (net.dirs false).sent.length ∧
      ¬ ∀ n, (net.dirs true).heldUnder (twoGuids false) n =
        (net.dirs false).sent.getLast?.bind fun datagram => contents datagram.localTopics n := by
  refine ⟨fun op hop => ?_, by decide, fun h => absurd (h "t".toList) (by decide)⟩
  rcases List.mem_append.1 hop with hop | hop
  · exact announceOps_ok op hop
  · rcases List.mem_cons.1 hop with rfl | hop
    · trivial
    · rw [List.mem_singleton.1 hop]; trivial

end Net
end A17.Dispatch
