import A17.Dispatch.Isolation
import A17.Dispatch.QueryTimer
import A17.Dispatch.Search
import Mathlib.Logic.Function.Basic

/-!
# Directories on a multicast channel

Any number of directories, each with the list of datagrams it has sent; a directory handles the
datagrams of each sender in the order sent, with any delay (`delivered` counts them). The first half
of the agreement result is about the sender alone: the datagrams it has sent form a chain (`Chain`) in
which each one tells exactly how `local_topics_` has changed since the one before.
-/

open Std

namespace A17.Dispatch
open CString

def exitText (guid : Str) : Str := DISPATCH ++ guid ++ [' ', DISCOVERY_EXIT]

/-! ### The network -/

structure Net (ι : Type) where
  dirs : ι → Directory
  alive : ι → Bool
  /-- How many of a sender's datagrams a receiver has handled: `delivered receiver sender`. -/
  delivered : ι → ι → Nat

inductive NetOp (ι : Type) where
  | act (a : ι) (op : DirectoryOp)
  | deliver (receiver sender : ι) (now : Int)
  | destroy (a : ι)

namespace Net
variable {ι : Type} [DecidableEq ι]

def init (guid : ι → Str) (own : ι → OwnAddress) : Net ι where
  dirs a := .new (guid a) (own a)
  alive _ := true
  delivered _ _ := 0

def setDir (net : Net ι) (a : ι) (d : Directory) : Net ι := { net with dirs := Function.update net.dirs a d }

def step (net : Net ι) : NetOp ι → Net ι
  | .act a op => if net.alive a then net.setDir a ((net.dirs a).step op) else net
  | .deliver b a now =>
    match (net.dirs a).sent[net.delivered b a]? with
    | none => net
    | some datagram =>
      if net.alive b then
        { net.setDir b ((net.dirs b).receive now datagram.text) with
          delivered := Function.update net.delivered b
            (Function.update (net.delivered b) a (net.delivered b a + 1)) }
      else net
  | .destroy a =>
    if net.alive a then { net.setDir a (net.dirs a).destroy with alive := Function.update net.alive a false }
    else net

def run (net : Net ι) (ops : List (NetOp ι)) : Net ι := ops.foldl step net

@[simp] theorem run_concat (net : Net ι) (ops : List (NetOp ι)) (op : NetOp ι) :
    net.run (ops ++ [op]) = (net.run ops).step op := by
  simp [run]

end Net

/-! ### Well-formed operations -/

section
variable {ι : Type} (guid : ι → Str) (own : ι → OwnAddress)

structure Announced (a : ι) (t : DirectoryTopic) : Prop where
  info : t.info = buildTopicInfo t.name t.socketType t.address t.inputTypes t.outputTypes
  wellFormed : WellFormed t.name t.address t.inputTypes t.outputTypes
  network : ∀ b, b ≠ a → (own b).onNetwork (Address.parse t.address).ip = true
  fits : (Directory.message (guid a) DISCOVERY_AVAILABLE t.info).length ≤ EVENT_BUFFER_SIZE

structure Askable (a : ι) (name : Str) : Prop where
  token : Token name
  fits : DISPATCH.length + (guid a).length + 2 + 1 + name.length < EVENT_BUFFER_SIZE

/-- What the directories do: announce well-formed topics of their own, search for well-formed names;
datagrams come from the channel only. -/
def NetOp.Ok : NetOp ι → Prop
  | .act a (.add now name socketType address inputTypes outputTypes g) =>
    g = guid a ∧ Announced guid own a (Directory.topicAt now name socketType address inputTypes outputTypes g)
  | .act a (.observe name _ _) => Askable guid a name
  | .act _ (.receive _ _) => False
  | _ => True

end

/-! ### What a directory has sent -/

section
variable {ι : Type} (guid : ι → Str) (own : ι → OwnAddress)

/-- `x` is sent when `local_topics_` was `m` at the datagram before. -/
inductive Link (a : ι) (m : ExtTreeMap Str DirectoryTopic) : Datagram → Prop
  | announce (t : DirectoryTopic) (ht : Announced guid own a t) (hm : ∀ t', m[t.name]? = some t' → t' = t) :
    Link a m ⟨Directory.message (guid a) DISCOVERY_AVAILABLE t.info, m.insert t.name t⟩
  | retract (t : DirectoryTopic) (ht : Announced guid own a t) :
    Link a m ⟨Directory.message (guid a) DISCOVERY_REMOVE t.name, m.erase t.name⟩
  | search (names : List Str) (hn : ∀ n ∈ names, Token n) (hb : Directory.Batch (guid a) names) :
    Link a m ⟨Directory.searchText (guid a) names, m⟩

/-- The datagrams `l` tell how `local_topics_` went from `m` to `m'`. -/
inductive Chain (a : ι) : ExtTreeMap Str DirectoryTopic → List Datagram → ExtTreeMap Str DirectoryTopic → Prop
  | nil (m) : Chain a m [] m
  | snoc {m m' l x} (h : Chain a m l m') (hx : Link guid own a m' x) : Chain a m (l ++ [x]) x.localTopics

structure Node (a : ι) (d : Directory) : Prop where
  inv : d.Inv
  myGuid : d.myGuid = guid a
  ownAddress : d.ownAddress = own a
  observed : ∀ e ∈ d.topics.observers, Askable guid a e.1
  announced : ∀ (n : Str) t, d.topics.localTopics[n]? = some t → Announced guid own a t

variable {guid own} {a : ι}

theorem Chain.append {m m' m'' : ExtTreeMap Str DirectoryTopic} {l l' : List Datagram}
    (h : Chain guid own a m l m') (h' : Chain guid own a m' l' m'') : Chain guid own a m (l ++ l') m'' := by
  induction h' with
  | nil => rwa [List.append_nil]
  | snoc _ hx ih => rw [← List.append_assoc]; exact ih.snoc hx

/-- A step of `d` sends the datagrams that tell what it did to `local_topics_`. -/
def Tells (guid : ι → Str) (own : ι → OwnAddress) (a : ι) (d d' : Directory) : Prop :=
  ∃ l, d'.sent = d.sent ++ l ∧ Chain guid own a d.topics.localTopics l d'.topics.localTopics

theorem Tells.trans {d d' d'' : Directory} (h : Tells guid own a d d') (h' : Tells guid own a d' d'') :
    Tells guid own a d d'' := by
  obtain ⟨l, hl, hc⟩ := h
  obtain ⟨l', hl', hc'⟩ := h'
  exact ⟨l ++ l', by rw [hl', hl, List.append_assoc], hc.append hc'⟩

theorem tells_of_eq {d d' : Directory} (hs : d'.sent = d.sent)
    (hl : d'.topics.localTopics = d.topics.localTopics) : Tells guid own a d d' :=
  ⟨[], by rw [hs, List.append_nil], hl ▸ .nil _⟩

theorem Node.of_new (guid : ι → Str) (own : ι → OwnAddress) (a : ι) :
    Node guid own a (.new (guid a) (own a)) where
  inv := .of_new _ _
  myGuid := rfl
  ownAddress := rfl
  observed e he := by cases he
  announced n t h := by simp [Directory.new, DirectoryTopicStore.new] at h

namespace Node
variable {d : Directory}

theorem name_eq (h : Node guid own a d) {n : Str} {t : DirectoryTopic} (ht : d.topics.localTopics[n]? = some t) :
    t.name = n :=
  (h.inv.topics.keys n _ t (h.inv.topics.mine n ▸ ht)).1

theorem tells_reply (h : Node guid own a d) {n : Str} {t : DirectoryTopic}
    (ht : d.topics.localTopics[n]? = some t) : Tells guid own a d (d.send DISCOVERY_AVAILABLE t.info) := by
  have hn := h.name_eq ht
  subst hn
  have hm : ∀ t', d.topics.localTopics[t.name]? = some t' → t' = t := by
    intro t' ht'
    rw [ht] at ht'
    exact (Option.some.inj ht').symm
  refine ⟨_, rfl, ?_⟩
  have hlink := Chain.snoc (.nil _) (Link.announce t (h.announced _ t ht) hm)
  rw [ExtTreeMap.insert_eq_self ht, ← h.myGuid] at hlink
  exact hlink

theorem onlySent {d' : Directory} (h : Node guid own a d) (hs : Directory.OnlySent d d') : Node guid own a d' := by
  obtain ⟨_, rfl⟩ := hs
  exact ⟨⟨h.inv.topics, h.inv.guid⟩, h.myGuid, h.ownAddress, h.observed, h.announced⟩

theorem tells_searchReply (h : Node guid own a d) (name : Str) : Tells guid own a d (d.searchReply name) := by
  unfold Directory.searchReply
  split
  · -- the reply to `*`: all topics, none of which the replies change
    have hl : ∀ e ∈ d.topics.localTopics.toList, d.topics.localTopics[e.1]? = some e.2 := fun e he =>
      ExtTreeMap.mem_toList_iff_getElem?_eq_some.1 he
    revert hl
    generalize d.topics.localTopics.toList = l
    intro hl
    induction l generalizing d with
    | nil => exact tells_of_eq rfl rfl
    | cons e l ih =>
      have h1 := h.tells_reply (hl e (by simp))
      exact h1.trans (ih (h.onlySent ⟨_, rfl⟩) fun e' he' => hl e' (by simp [he']))
  · split
    · next t ht => exact h.tells_reply ht
    · exact tells_of_eq rfl rfl

theorem tells_foldl_searchReply (h : Node guid own a d) (names : List Str) :
    Tells guid own a d (names.foldl Directory.searchReply d) := by
  induction names generalizing d with
  | nil => exact tells_of_eq rfl rfl
  | cons n ns ih => exact (h.tells_searchReply n).trans (ih (h.onlySent (d.onlySent_searchReply n)))

theorem receive (h : Node guid own a d) (now : Int) (bytes : Str) :
    Tells guid own a d (d.receive now bytes) ∧ Node guid own a (d.receive now bytes) := by
  have hinv : (d.receive now bytes).Inv := h.inv.step (.receive now bytes)
  have hguid : (d.receive now bytes).myGuid = d.myGuid := d.step_myGuid (.receive now bytes)
  have hown : (d.receive now bytes).ownAddress = d.ownAddress := d.step_ownAddress (.receive now bytes)
  have hlocal : (d.receive now bytes).topics.localTopics = d.topics.localTopics := by
    rw [Directory.receive_eq]; exact (Directory.handle_entry h.inv now _).2
  have hobs : (d.receive now bytes).topics.observers = d.topics.observers := by
    rw [Directory.receive_eq]; exact d.handle_observers now _
  refine ⟨?_, hinv, hguid.trans h.myGuid, hown.trans h.ownAddress, hobs ▸ h.observed, hlocal ▸ h.announced⟩
  rw [Directory.receive_eq] at hlocal ⊢
  have hne : ∀ g, (Event.decode d.myGuid (bytes.take EVENT_BUFFER_SIZE)).guid? = some g → g ≠ d.topics.myGuid :=
    fun g hg => h.inv.guid ▸ (Event.guid_decode hg).2
  generalize Event.decode d.myGuid (bytes.take EVENT_BUFFER_SIZE) = e at hlocal hne ⊢
  cases e with
  | ignored => exact tells_of_eq rfl rfl
  | available g name type address ins outs =>
    refine tells_of_eq ?_ hlocal
    simp only [Directory.handle, Directory.available]
    split
    · split
      · rfl
      · exact d.add_sent_of_other (hne g rfl)
    · rfl
  | search g names => exact h.tells_foldl_searchReply names
  | exit | remove => exact tells_of_eq rfl hlocal

theorem add (h : Node guid own a d) (now : Int) {name : Str} {socketType : SocketType} {address : Str}
    {ins outs : TypeSet}
    (ht : Announced guid own a (Directory.topicAt now name socketType address ins outs (guid a))) :
    Tells guid own a d (d.add now name socketType address ins outs (guid a)).2 ∧
      Node guid own a (d.add now name socketType address ins outs (guid a)).2 := by
  set t := Directory.topicAt now name socketType address ins outs (guid a) with htdef
  have hg : t.guid = d.topics.myGuid := by rw [h.inv.guid, h.myGuid]; rfl
  have hinv : (d.add now name socketType address ins outs (guid a)).2.Inv :=
    h.inv.step (.add now name socketType address ins outs (guid a))
  by_cases hn : t.name ∈ d.topics.localTopics
  · have hd : (d.add now name socketType address ins outs (guid a)).2 = d.stored (.add t) (d.topics, []) := by
      rw [Directory.add, ← htdef, d.topics.add_of_duplicate hg hn]
    rw [hd] at hinv ⊢
    exact ⟨tells_of_eq rfl rfl, hinv, h.myGuid, h.ownAddress, h.observed, h.announced⟩
  · set r := { d.topics with localTopics := d.topics.localTopics.insert t.name t }.addNetwork t with hr
    have hd : (d.add now name socketType address ins outs (guid a)).2 =
        (d.stored (.add t) r).send DISCOVERY_AVAILABLE t.info := by
      rw [Directory.add, ← htdef, d.topics.add_of_own hg hn]
    have hlocal : (d.stored (.add t) r).topics.localTopics = d.topics.localTopics.insert t.name t :=
      DirectoryTopicStore.addNetwork_localTopics _ t
    have hobs : (d.stored (.add t) r).topics.observers = d.topics.observers :=
      DirectoryTopicStore.addNetwork_observers _ t
    rw [hd] at hinv ⊢
    refine ⟨⟨_, rfl, ?_⟩, hinv, h.myGuid, h.ownAddress, ?_, fun n t' ht' => ?_⟩
    · have hm : ∀ t', d.topics.localTopics[t.name]? = some t' → t' = t := by
        intro t' ht'
        exact absurd (ExtTreeMap.mem_iff_find.2 ⟨t', ht'⟩) hn
      have hlink := Chain.snoc (.nil _) (Link.announce t ht hm)
      rw [← hlocal, ← h.myGuid] at hlink
      exact hlink
    · exact hobs ▸ h.observed
    · have ht'' : (d.topics.localTopics.insert t.name t)[n]? = some t' := hlocal ▸ ht'
      rw [ExtTreeMap.find_insert] at ht''
      split at ht''
      · cases ht''; exact ht
      · exact h.announced n t' ht''

theorem remove (h : Node guid own a d) (n : Str) :
    Tells guid own a d (d.remove n) ∧ Node guid own a (d.remove n) := by
  have hinv : (d.remove n).Inv := h.inv.step (.remove n)
  set r := { d.topics with localTopics := d.topics.localTopics.erase n }.eraseGuid d.myGuid n with hr
  have hd : d.remove n =
      if d.topics.localTopics.contains n then (d.stored (.remove d.myGuid n) r).send DISCOVERY_REMOVE n
      else d.stored (.remove d.myGuid n) r := by
    rw [Directory.remove, ← h.inv.guid, d.topics.remove_of_own, hr, ← h.inv.guid]
  have hlocal : (d.stored (.remove d.myGuid n) r).topics.localTopics = d.topics.localTopics.erase n :=
    DirectoryTopicStore.eraseGuid_localTopics ..
  have hobs : (d.stored (.remove d.myGuid n) r).topics.observers = d.topics.observers :=
    DirectoryTopicStore.eraseGuid_observers ..
  have hann : ∀ (m : Str) t, (d.topics.localTopics.erase n)[m]? = some t → Announced guid own a t := by
    intro m t ht
    rw [ExtTreeMap.find_erase] at ht
    split at ht
    · cases ht
    · exact h.announced m t ht
  rw [hd] at hinv ⊢
  split at hinv
  · next hc =>
    rw [if_pos hc]
    refine ⟨⟨_, rfl, ?_⟩, hinv, h.myGuid, h.ownAddress, ?_, ?_⟩
    · obtain ⟨t, ht⟩ := ExtTreeMap.mem_iff_find.1 (ExtTreeMap.mem_iff_contains.2 hc)
      have hlink := Chain.snoc (.nil d.topics.localTopics) (Link.retract t (h.announced n t ht))
      rw [h.name_eq ht, ← hlocal, ← h.myGuid] at hlink
      exact hlink
    · exact hobs ▸ h.observed
    · exact hlocal ▸ hann
  · next hc =>
    rw [if_neg hc]
    have hnone : d.topics.localTopics[n]? = none := ExtTreeMap.find_eq_none.2 hc
    refine ⟨tells_of_eq rfl ?_, hinv, h.myGuid, h.ownAddress, hobs ▸ h.observed, hlocal ▸ hann⟩
    rw [hlocal, ExtTreeMap.erase_eq_self hnone]

theorem chain_searches (guid : ι → Str) (own : ι → OwnAddress) (a : ι) (hg : d.myGuid = guid a)
    {batches : List (List Str)} (hb : ∀ b ∈ batches, Directory.Batch (guid a) b)
    (hn : ∀ n ∈ batches.flatten, Token n) :
    Chain guid own a d.topics.localTopics (d.searches batches) d.topics.localTopics := by
  induction batches using List.reverseRecOn with
  | nil => exact .nil _
  | append_singleton batches names ih =>
    have hc := ih (fun b h => hb b (by simp [h])) fun n h => hn n (by rw [List.flatten_append]; simp [h])
    have hlink := hc.snoc (.search names (fun n h => hn n (by rw [List.flatten_append]; simp [h]))
      (hb names (by simp)))
    rw [Directory.searches, List.map_append, hg]
    rw [Directory.searches, hg] at hlink
    exact hlink

theorem tells_queryMissingTopics (h : Node guid own a d) (hg : Token (guid a)) (success : Bool) :
    Tells guid own a d (d.queryMissingTopics success) := by
  have hacts := (d.queryMissingTopics_acts success).topics
  cases success with
  | false => exact tells_of_eq rfl rfl
  | true =>
    have hmiss : ∀ n ∈ d.topics.getMissing, Askable guid a n := by
      intro n hn
      obtain ⟨e, he, rfl⟩ := ((h.inv.mem_getMissing n).1 hn).1
      exact h.observed e he
    obtain ⟨batches, hsent, hb, hflat⟩ := Directory.queryMissingTopics_sent (d := d)
      (h.myGuid ▸ hg.nul) fun n hn => ⟨(hmiss n hn).token.nul, h.myGuid ▸ (hmiss n hn).fits⟩
    refine ⟨_, hsent, ?_⟩
    rw [hacts]
    refine chain_searches guid own a h.myGuid (h.myGuid ▸ hb) fun n hn => ?_
    exact (hmiss n (ExtTreeSet.mem_toList.1 (hflat ▸ hn))).token

theorem complete (h : Node guid own a d) (hg : Token (guid a)) (success : Bool) :
    Tells guid own a d (d.complete success) := by
  unfold Directory.complete
  split
  · have h' : Node guid own a { d with
        queryTimer := { d.queryTimer with completions := d.queryTimer.completions.erase ((), success) } } :=
      ⟨⟨h.inv.topics, h.inv.guid⟩, h.myGuid, h.ownAddress, h.observed, h.announced⟩
    exact h'.tells_queryMissingTopics hg success
  · exact tells_of_eq rfl rfl

theorem of_acts {d' : Directory} (h : Node guid own a d) (hd : d.Acts [] d') : Node guid own a d' := by
  have ht : d'.topics = d.topics := hd.topics
  refine ⟨⟨ht ▸ h.inv.topics, ?_⟩, hd.myGuid.trans h.myGuid, hd.ownAddress.trans h.ownAddress,
    ht ▸ h.observed, ht ▸ h.announced⟩
  rw [ht, hd.myGuid, h.inv.guid]

theorem step (h : Node guid own a d) (hg : Token (guid a)) {op : DirectoryOp}
    (hop : (NetOp.act a op).Ok guid own) : Tells guid own a d (d.step op) ∧ Node guid own a (d.step op) := by
  cases op with
  | observe n handler ref =>
    refine ⟨tells_of_eq rfl rfl, h.inv.step (.observe n handler ref), h.myGuid, h.ownAddress, fun e he => ?_,
      h.announced⟩
    rcases List.mem_append.1 he with he | he
    · exact h.observed e he
    · rw [List.mem_singleton.1 he]; exact hop
  | unobserve n ref =>
    exact ⟨tells_of_eq rfl rfl, h.inv.step (.unobserve n ref), h.myGuid, h.ownAddress,
      fun e he => h.observed e (List.mem_of_mem_filter he), h.announced⟩
  | add now name socketType address ins outs g =>
    obtain ⟨rfl, ht⟩ := hop
    exact h.add now ht
  | remove n => exact h.remove n
  | receive now bytes => exact hop.elim
  | expire => exact ⟨tells_of_eq rfl rfl, h.of_acts (d.step_acts .expire)⟩
  | complete success => exact ⟨h.complete hg success, h.of_acts (d.step_acts (.complete success))⟩
  | runPosted =>
    refine ⟨?_, h.of_acts (d.step_acts .runPosted)⟩
    rw [Directory.step, Directory.runPosted]
    split
    · exact tells_of_eq rfl rfl
    · split <;> exact tells_of_eq rfl rfl

theorem step_entry_other (h : Node guid own a d) {op : DirectoryOp} (hop : (NetOp.act a op).Ok guid own) {g : Str}
    (hg : g ≠ guid a) (n : Str) : (d.step op).topics.entry n g = d.topics.entry n g := by
  have hev := d.evict_notMem_storeOps op
  rw [← h.inv.guid] at hev
  rw [Directory.step_topics]
  refine h.inv.topics.run_entry_other hev (fun op' hop' h0 => ?_) n
  cases op with
  | receive now bytes => exact hop.elim
  | add now name socketType address ins outs g' =>
    rw [List.mem_singleton.1 hop'] at h0
    exact hg ((Option.some.inj h0).symm.trans hop.1)
  | remove m =>
    rw [List.mem_singleton.1 hop'] at h0
    exact hg ((Option.some.inj h0).symm.trans h.myGuid)
  | observe | unobserve => rw [List.mem_singleton.1 hop'] at h0; cases h0
  | _ => cases hop'

end Node
end
end A17.Dispatch
