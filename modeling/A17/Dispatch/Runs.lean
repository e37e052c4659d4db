import A17.Dispatch.StoreRefinement
import A17.Dispatch.Wire

/-!
# Runs of a directory

Everything that can happen to a directory, one operation at a time (`step`). A step acts on the store
by a sequence of its calls (`storeOps`), so what is proved of runs of the store holds of the store of a
directory; in particular no datagram evicts the directory's own guid, and the store's invariant holds
in every state (`Inv.run`).
-/

open Std

namespace A17.Dispatch
open CString

inductive DirectoryOp where
  | observe (topicName : Str) (handler : Nat) (ref : Str)
  | unobserve (topicName ref : Str)
  | add (now : Int) (topicName : Str) (socketType : SocketType) (address : Str)
      (inputTypes outputTypes : TypeSet) (guid : Str)
  | remove (topicName : Str)
  /-- A datagram arrives; the receive buffer takes its first `EVENT_BUFFER_SIZE` bytes. -/
  | receive (now : Int) (bytes : Str)
  | expire
  | complete (success : Bool)
  | runPosted

namespace Directory

def runPosted (d : Directory) : Directory :=
  match d.posted with
  | [] => d
  | (topicName, handler) :: posted =>
    match d.topics.callImmediate topicName with
    | none => { d with posted }
    | some guidTopicMap => { d with posted, invoked := d.invoked ++ [(handler, topicName, guidTopicMap)] }

def complete (d : Directory) (success : Bool) : Directory :=
  if ((), success) ∈ d.queryTimer.completions then
    { d with
      queryTimer := { d.queryTimer with completions := d.queryTimer.completions.erase ((), success) }
    }.queryMissingTopics success
  else d

def receive (d : Directory) (now : Int) (bytes : Str) : Directory :=
  match d.event now (bytes.take EVENT_BUFFER_SIZE) with
  | .ok d' => d'
  | .error _ => d

def step (d : Directory) : DirectoryOp → Directory
  | .observe topicName handler ref => d.observe topicName handler ref
  | .unobserve topicName ref => d.unobserve topicName ref
  | .add now topicName socketType address inputTypes outputTypes guid =>
    (d.add now topicName socketType address inputTypes outputTypes guid).2
  | .remove topicName => d.remove topicName
  | .receive now bytes => d.receive now bytes
  | .expire => { d with queryTimer := d.queryTimer.expire }
  | .complete success => d.complete success
  | .runPosted => d.runPosted

def run (d : Directory) (ops : List DirectoryOp) : Directory := ops.foldl step d

@[simp] theorem run_concat (d : Directory) (ops : List DirectoryOp) (op : DirectoryOp) :
    d.run (ops ++ [op]) = (d.run ops).step op := by
  simp [run]

theorem receive_eq (d : Directory) (now : Int) (bytes : Str) :
    d.receive now bytes = d.handle now (.decode d.myGuid (bytes.take EVENT_BUFFER_SIZE)) := by
  rw [receive, d.event_eq now (List.length_take_le ..)]

/-! ### What a step leaves alone -/

def OnlySent (d d' : Directory) : Prop := ∃ sent, d' = { d with sent }

section
variable (d : Directory)

theorem OnlySent.trans {d₁ d₂ d₃ : Directory} (h : OnlySent d₁ d₂) (h' : OnlySent d₂ d₃) : OnlySent d₁ d₃ := by
  obtain ⟨_, rfl⟩ := h
  obtain ⟨_, rfl⟩ := h'
  exact ⟨_, rfl⟩

theorem onlySent_refl : OnlySent d d := ⟨d.sent, rfl⟩

theorem onlySent_send_ (text : Str) : OnlySent d (d.send_ text) := ⟨_, rfl⟩

theorem onlySent_packTopic (q : QueryBuffer) (name : Str) : OnlySent d (packTopic (d, q) name).1 := by
  unfold packTopic
  dsimp only
  split
  · cases q.buf with
    | none => exact d.onlySent_refl
    | some buf => exact d.onlySent_send_ _
  · exact d.onlySent_refl

theorem onlySent_foldl_packTopic (q : QueryBuffer) (names : List Str) :
    OnlySent d (names.foldl packTopic (d, q)).1 := by
  induction names generalizing d q with
  | nil => exact d.onlySent_refl
  | cons n ns ih => exact (d.onlySent_packTopic q n).trans (ih _ _)

theorem onlySent_sendRequests (names : List Str) : OnlySent d (d.sendRequests names) := by
  have h := d.onlySent_foldl_packTopic {} names
  unfold sendRequests
  dsimp only
  split
  · exact h.trans (onlySent_send_ _ _)
  · exact h

theorem onlySent_searchReply (name : Str) : OnlySent d (d.searchReply name) := by
  unfold searchReply
  split
  · generalize d.topics.localTopics.toList = l
    have : ∀ d' : Directory, OnlySent d' (l.foldl (fun d e => d.send DISCOVERY_AVAILABLE e.2.info) d') := by
      induction l with
      | nil => exact onlySent_refl
      | cons e l ih => exact fun d' => (d'.onlySent_send_ _).trans (ih _)
    exact this d
  · split
    · exact d.onlySent_send_ _
    · exact d.onlySent_refl

theorem onlySent_foldl_searchReply (names : List Str) : OnlySent d (names.foldl searchReply d) := by
  induction names generalizing d with
  | nil => exact d.onlySent_refl
  | cons n ns ih => exact (d.onlySent_searchReply n).trans (ih _)

theorem backOff_eq :
    ∃ timer interval, d.backOff = { d with queryTimer := timer, queryInterval := interval } ∧ timer.Scheduled := by
  unfold backOff
  dsimp only
  split <;> split <;> exact ⟨_, _, rfl, DeadlineTimer.scheduled_asyncWait _⟩

end

/-! ### The calls on the store -/

/-- The calls on the store that a decoded datagram leads to. -/
def eventOps (own : OwnAddress) (now : Int) : Event → List StoreOp
  | .available guid name type address ins outs =>
    if own.onNetwork (Address.parse address).ip then
      match SocketType.fromName type with
      | none => []
      | some socketType => [.add (topicAt now name socketType address (parseTypes ins) (parseTypes outs) guid)]
    else []
  | .exit guid => [.evict guid]
  | .remove guid name => [.remove guid name]
  | _ => []

/-- What an event asks of the store, if it asks anything. -/
inductive EventOp (own : OwnAddress) (now : Int) : Event → StoreOp → Prop
  | available {guid name type address ins outs : Str} {socketType : SocketType}
      (hnet : own.onNetwork (Address.parse address).ip = true) (htype : SocketType.fromName type = some socketType) :
      EventOp own now (.available guid name type address ins outs)
        (.add (topicAt now name socketType address (parseTypes ins) (parseTypes outs) guid))
  | exit (guid : Str) : EventOp own now (.exit guid) (.evict guid)
  | remove (guid name : Str) : EventOp own now (.remove guid name) (.remove guid name)

theorem mem_eventOps {own : OwnAddress} {now : Int} {e : Event} {op : StoreOp} (h : op ∈ eventOps own now e) :
    EventOp own now e op := by
  cases e with
  | ignored | search => cases h
  | available =>
    rw [eventOps] at h
    split at h
    · next hnet =>
      split at h
      · cases h
      · next htype =>
        rw [List.mem_singleton.1 h]
        exact .available hnet htype
    · cases h
  | exit guid =>
    rw [List.mem_singleton.1 h]
    exact .exit guid
  | remove guid name =>
    rw [List.mem_singleton.1 h]
    exact .remove guid name

def storeOps (d : Directory) : DirectoryOp → List StoreOp
  | .observe topicName handler ref => [.observe topicName handler ref]
  | .unobserve topicName ref => [.unobserve topicName ref]
  | .add now topicName socketType address inputTypes outputTypes guid =>
    [.add (topicAt now topicName socketType address inputTypes outputTypes guid)]
  | .remove topicName => [.remove d.myGuid topicName]
  | .receive now bytes => eventOps d.ownAddress now (.decode d.myGuid (bytes.take EVENT_BUFFER_SIZE))
  | _ => []

section
variable (d : Directory)

theorem add_snd (now : Int) (name : Str) (socketType : SocketType) (address : Str)
    (inputTypes outputTypes : TypeSet) (guid : Str) :
    let t := topicAt now name socketType address inputTypes outputTypes guid
    OnlySent (d.stored (.add t) (d.topics.add t).2)
      (d.add now name socketType address inputTypes outputTypes guid).2 := by
  unfold add
  dsimp only
  split
  · exact onlySent_refl _
  · exact onlySent_send_ _ _
  · exact onlySent_refl _

theorem add_sent_of_other {now : Int} {name : Str} {socketType : SocketType} {address : Str} {ins outs : TypeSet}
    {g : Str} (hg : g ≠ d.topics.myGuid) : (d.add now name socketType address ins outs g).2.sent = d.sent := by
  have ht : (topicAt now name socketType address ins outs g).guid ≠ d.topics.myGuid := hg
  rw [add, d.topics.add_of_other ht]
  rfl

theorem remove_onlySent (name : Str) :
    OnlySent (d.stored (.remove d.myGuid name) (d.topics.remove d.myGuid name).2) (d.remove name) := by
  unfold remove
  dsimp only
  split
  · exact onlySent_send_ _ _
  · exact onlySent_refl _

/-- The fields that an operation reads and never writes, and its effect on the store. -/
structure Acts (d : Directory) (ops : List StoreOp) (d' : Directory) : Prop where
  myGuid : d'.myGuid = d.myGuid
  ownAddress : d'.ownAddress = d.ownAddress
  topics : d'.topics = d.topics.run ops

variable {d} in
theorem OnlySent.acts {d₁ d' : Directory} {ops : List StoreOp} (h : OnlySent d₁ d') (h₁ : Acts d ops d₁) :
    Acts d ops d' := by
  obtain ⟨_, rfl⟩ := h
  exact ⟨h₁.myGuid, h₁.ownAddress, h₁.topics⟩

theorem handle_acts (now : Int) (e : Event) : Acts d (eventOps d.ownAddress now e) (d.handle now e) := by
  cases e with
  | ignored => exact ⟨rfl, rfl, rfl⟩
  | available guid name type address ins outs =>
    simp only [handle, available, eventOps]
    by_cases hnet : d.ownAddress.onNetwork (Address.parse address).ip = true
    · rw [if_pos hnet, if_pos hnet]
      cases SocketType.fromName type with
      | none => exact ⟨rfl, rfl, rfl⟩
      | some socketType =>
        exact (d.add_snd now name socketType address _ _ guid).acts ⟨rfl, rfl, rfl⟩
    · rw [if_neg hnet, if_neg hnet]
      exact ⟨rfl, rfl, rfl⟩
  | search guid names => exact (d.onlySent_foldl_searchReply names).acts ⟨rfl, rfl, rfl⟩
  | exit guid => exact ⟨rfl, rfl, rfl⟩
  | remove guid name => exact ⟨rfl, rfl, rfl⟩

theorem queryMissingTopics_acts (success : Bool) : Acts d [] (d.queryMissingTopics success) := by
  unfold queryMissingTopics
  dsimp only
  split
  · exact ⟨rfl, rfl, rfl⟩
  · split
    · exact ⟨rfl, rfl, rfl⟩
    · obtain ⟨timer, interval, hb, -⟩ := d.backOff_eq
      refine (onlySent_sendRequests _ _).acts ?_
      rw [hb]
      exact ⟨rfl, rfl, rfl⟩

theorem step_acts (op : DirectoryOp) : Acts d (d.storeOps op) (d.step op) := by
  cases op with
  | observe | unobserve | expire => exact ⟨rfl, rfl, rfl⟩
  | add now name socketType address ins outs guid =>
    exact (d.add_snd now name socketType address ins outs guid).acts ⟨rfl, rfl, rfl⟩
  | remove n => exact (d.remove_onlySent n).acts ⟨rfl, rfl, rfl⟩
  | receive now bytes => rw [step, receive_eq]; exact d.handle_acts ..
  | complete success =>
    rw [step, complete]
    split
    · have h := queryMissingTopics_acts { d with
        queryTimer := { d.queryTimer with completions := d.queryTimer.completions.erase ((), success) } } success
      exact ⟨h.myGuid, h.ownAddress, h.topics⟩
    · exact ⟨rfl, rfl, rfl⟩
  | runPosted =>
    rw [step, runPosted]
    split
    · exact ⟨rfl, rfl, rfl⟩
    · split <;> exact ⟨rfl, rfl, rfl⟩

@[simp] theorem step_myGuid (op : DirectoryOp) : (d.step op).myGuid = d.myGuid := (d.step_acts op).myGuid

@[simp] theorem step_ownAddress (op : DirectoryOp) : (d.step op).ownAddress = d.ownAddress :=
  (d.step_acts op).ownAddress

theorem step_topics (op : DirectoryOp) : (d.step op).topics = d.topics.run (d.storeOps op) :=
  (d.step_acts op).topics

theorem run_myGuid (ops : List DirectoryOp) : (d.run ops).myGuid = d.myGuid := by
  induction ops using List.reverseRecOn with
  | nil => rfl
  | append_singleton ops op ih => rw [run_concat, step_myGuid, ih]

end
end Directory

/-! ### The sender of a datagram -/

namespace Event

def guid? : Event → Option Str
  | .ignored => none
  | .available guid .. | .search guid _ | .exit guid | .remove guid _ => some guid

theorem guid_ofCommand {guid g : Str} {toks : List Str} (h : (ofCommand guid toks).guid? = some g) : g = guid := by
  unfold ofCommand at h
  split at h
  · split_ifs at h
    · unfold ofAvailable at h
      split at h
      · split at h
        · cases h
        · cases h; rfl
      · cases h
    all_goals cases h
    all_goals rfl
  · cases h

/-- A datagram acts under its guid token, which is never the directory's own guid. -/
theorem guid_decode {myGuid bytes g : Str} (h : (decode myGuid bytes).guid? = some g) :
    g = sender bytes ∧ g ≠ myGuid := by
  unfold decode at h
  split at h
  · next hd =>
    obtain ⟨hprint, -, hne⟩ := hd
    obtain rfl := guid_ofCommand h
    refine ⟨rfl, fun h0 => hne ?_⟩
    -- a guid that came in a datagram has no NUL, so the comparison as C strings was one of the whole guid
    have hnul : NUL ∉ sender bytes := by
      intro hm
      have hmem : sender bytes ∈ (bytes.drop DISPATCH.length).splitOn ' ' := by
        rw [← sender_cons_command]; exact List.mem_cons_self ..
      exact NUL_notMem_of_isprint (List.all_eq_true.1 hprint)
        (List.mem_of_mem_drop (mem_of_mem_splitOn hmem hm))
    rw [← h0, cString_eq_self hnul]
  · cases h

end Event

namespace Directory

structure Inv (d : Directory) : Prop where
  topics : d.topics.Inv
  guid : d.topics.myGuid = d.myGuid

theorem evict_notMem_storeOps (d : Directory) (op : DirectoryOp) : StoreOp.evict d.myGuid ∉ d.storeOps op := by
  intro h
  cases op with
  | receive now bytes =>
    simp only [storeOps] at h
    generalize he : Event.decode d.myGuid (bytes.take EVENT_BUFFER_SIZE) = e at h
    cases mem_eventOps h with
    | exit => exact (Event.guid_decode (by rw [he]; rfl)).2 rfl
  | _ => simp [storeOps] at h

namespace Inv
variable {d : Directory}

theorem of_new (myGuid : Str) (own : OwnAddress) : (new myGuid own).Inv :=
  ⟨DirectoryTopicStore.Inv.of_new myGuid, rfl⟩

theorem step (h : d.Inv) (op : DirectoryOp) : (d.step op).Inv := by
  have hev := d.evict_notMem_storeOps op
  rw [← h.guid] at hev
  refine ⟨?_, ?_⟩
  · rw [step_topics]
    exact h.topics.run_of hev
  · rw [step_topics, DirectoryTopicStore.run_myGuid, step_myGuid, h.guid]

theorem run (myGuid : Str) (own : OwnAddress) (ops : List DirectoryOp) : ((new myGuid own).run ops).Inv := by
  induction ops using List.reverseRecOn with
  | nil => exact of_new myGuid own
  | append_singleton ops op ih => rw [run_concat]; exact ih.step op

end Inv
end Directory
end A17.Dispatch
