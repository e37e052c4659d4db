import A17.Lib.Run
import A17.Dispatch.Observers
import A17.Dispatch.Runs

/-!
# Notifications after `unobserve`

`unobserve` takes the observer out of the store, so no change of the store reaches its handler again
(`step_heard`). But `observe` has posted a closure that calls the handler too, and that one `unobserve` leaves
alone: when it runs and the topic is known, a handler is called that is retired (`CallsRetired`).

Each call of `observe` registers a handler of its own, whose number is that of the call.
-/

open Std

namespace A17.Dispatch

def DirectoryOp.labelled (n : Nat) : DirectoryOp → DirectoryOp
  | .observe topicName _ ref => .observe topicName n ref
  | op => op

/-- A directory, the observers that were ever registered, the handlers whose observers were removed, and those
of them that were called since. -/
structure Observing where
  directory : Directory
  registered : List (Str × DirectoryObserver) := []
  retired : List Nat := []
  late : List Nat := []

namespace Observing

def register (s : Observing) : DirectoryOp → List (Str × DirectoryObserver)
  | .observe topicName handler ref => s.registered ++ [(topicName, ⟨handler, ref⟩)]
  | _ => s.registered

def retire (s : Observing) : DirectoryOp → List Nat
  | .unobserve topicName ref =>
    s.retired ++ (s.registered.filter fun e => e.1 = topicName ∧ e.2.ref = ref).map fun e => e.2.handler
  | _ => s.retired

def step (s : Observing) (op : DirectoryOp) : Observing :=
  let op := op.labelled s.registered.length
  let directory := s.directory.step op
  let called := (directory.invoked.drop s.directory.invoked.length).map Prod.fst
  { directory, registered := s.register op, retired := s.retire op
    late := s.late ++ called.filter (· ∈ s.retired) }

/-- No handler was called after its `unobserve`. -/
def Silent (s : Observing) : Prop := s.late = []

/-- The closure runs that a retired handler has left behind, and finds its topic. -/
def CallsRetired (s : Observing) : DirectoryOp → Prop
  | .runPosted => ∃ e ∈ s.directory.posted.head?, e.2 ∈ s.retired ∧ e.1 ∈ s.directory.topics.networkTopics
  | _ => False

end Observing

/-! ## Who hears of a step -/

namespace DirectoryTopicStore
variable {s : DirectoryTopicStore}

theorem mem_observers_run {ops : List StoreOp} {e : Str × DirectoryObserver} (h : e ∈ (s.run ops).observers) :
    e ∈ s.observers ∨ StoreOp.observe e.1 e.2.handler e.2.ref ∈ ops := by
  induction ops using List.reverseRecOn with
  | nil => exact .inl h
  | append_singleton ops op ih =>
    rw [run_concat] at h
    rw [List.mem_append, List.mem_singleton]
    rcases step_observers (s.run ops) op with ⟨n, handler, ref, rfl, ho⟩ | ⟨-, ho⟩
    · rw [ho, List.mem_append, List.mem_singleton] at h
      rcases h with h | rfl
      · exact (ih h).imp_right .inl
      · exact .inr (.inr rfl)
    · exact (ih (ho.subset h)).imp_right .inl

end DirectoryTopicStore

namespace Directory

/-- What was invoked on the way to `d'` are handlers of observers of `d`. -/
def Heard (d d' : Directory) : Prop :=
  ∃ calls, d'.invoked = d.invoked ++ calls ∧ ∀ c ∈ calls, ∃ e ∈ d.topics.observers, e.2.handler = c.1

section
variable {d d₁ d' : Directory}

theorem heard_of_eq (h : d'.invoked = d.invoked) : Heard d d' := ⟨[], by simp [h], by simp⟩

theorem OnlySent.heard (h : OnlySent d₁ d') (h₁ : Heard d d₁) : Heard d d' := by
  obtain ⟨_, rfl⟩ := h
  exact h₁

theorem stored_heard (d : Directory) (call : StoreCall) (op : StoreOp) :
    Heard d (d.stored call (d.topics.step op)) := by
  refine ⟨_, rfl, fun c hc => ?_⟩
  obtain ⟨n, hn, rfl⟩ := List.mem_map.1 hc
  rcases (DirectoryTopicStore.step_delivers_only hn).2.2 with ho | ho
  · exact ⟨_, ho, rfl⟩
  · exact ⟨_, ho, rfl⟩

theorem add_heard (d : Directory) (now : Int) (name : Str) (socketType : SocketType) (address : Str)
    (inputTypes outputTypes : TypeSet) (guid : Str) :
    Heard d (d.add now name socketType address inputTypes outputTypes guid).2 :=
  (d.add_snd now name socketType address inputTypes outputTypes guid).heard (d.stored_heard _ (.add _))

theorem handle_heard (d : Directory) (now : Int) (e : Event) : Heard d (d.handle now e) := by
  cases e with
  | ignored => exact heard_of_eq rfl
  | available guid name type address ins outs =>
    simp only [handle, available]
    split
    · split
      · exact heard_of_eq rfl
      · exact d.add_heard ..
    · exact heard_of_eq rfl
  | search guid names => exact (d.onlySent_foldl_searchReply names).heard (heard_of_eq rfl)
  | exit guid => exact d.stored_heard (.evict guid) (.evict guid)
  | remove guid name => exact d.stored_heard (.remove guid name) (.remove guid name)

theorem queryMissingTopics_invoked (d : Directory) (success : Bool) :
    (d.queryMissingTopics success).invoked = d.invoked := by
  rw [queryMissingTopics]
  dsimp only
  split
  · rfl
  · split
    · rfl
    · obtain ⟨timer, interval, hb, -⟩ := d.backOff_eq
      obtain ⟨sent, hs⟩ := onlySent_sendRequests d.backOff d.topics.getMissing.toList
      rw [hs, hb]

theorem step_heard (d : Directory) {op : DirectoryOp} (hop : op ≠ .runPosted) : Heard d (d.step op) := by
  cases op with
  | observe | unobserve | expire => exact heard_of_eq rfl
  | add now name socketType address ins outs guid => exact d.add_heard ..
  | remove name => exact (d.remove_onlySent name).heard (d.stored_heard _ (.remove _ name))
  | receive now bytes =>
    rw [step, receive_eq]
    exact d.handle_heard ..
  | complete success =>
    rw [step, complete]
    split
    · exact heard_of_eq (queryMissingTopics_invoked _ success)
    · exact heard_of_eq rfl
  | runPosted => exact absurd rfl hop

theorem observe_mem_storeOps {op : DirectoryOp} {topicName ref : Str} {handler : Nat}
    (h : StoreOp.observe topicName handler ref ∈ d.storeOps op) : op = .observe topicName handler ref := by
  cases op with
  | observe => simpa [storeOps, eq_comm] using h
  | receive now bytes =>
    rw [storeOps] at h
    generalize Event.decode d.myGuid (bytes.take EVENT_BUFFER_SIZE) = e at h
    cases mem_eventOps h
  | _ => simp [storeOps] at h

end
end Directory

/-! ## The invariant -/

namespace Observing

/-- The numbers of the handlers tell the observers apart, and no observer's handler is retired. -/
structure Inv (s : Observing) : Prop where
  silent : s.Silent
  observers : ∀ e ∈ s.directory.topics.observers, e ∈ s.registered ∧ e.2.handler ∉ s.retired
  retired : ∀ h ∈ s.retired, h < s.registered.length
  lt : ∀ e ∈ s.registered, e.2.handler < s.registered.length
  inj : ∀ e ∈ s.registered, ∀ e' ∈ s.registered, e.2.handler = e'.2.handler → e = e'

variable {s : Observing}

theorem Inv.init (myGuid : Str) (own : OwnAddress) : Inv { directory := .new myGuid own } := by
  constructor <;> simp [Silent, Directory.new, DirectoryTopicStore.new]

theorem Inv.late (h : s.Inv) {d : Directory} (hd : s.directory.Heard d) :
    s.late ++ ((d.invoked.drop s.directory.invoked.length).map Prod.fst).filter (· ∈ s.retired) = [] := by
  obtain ⟨calls, heq, hcalls⟩ := hd
  rw [h.silent, List.nil_append, heq, List.drop_left, List.filter_eq_nil_iff]
  intro handler hh
  obtain ⟨c, hc, rfl⟩ := List.mem_map.1 hh
  obtain ⟨e, he, heq⟩ := hcalls c hc
  rw [← heq]
  simpa using (h.observers e he).2

theorem Inv.silent_step (h : s.Inv) {op : DirectoryOp} (hop : op ≠ .runPosted) : (s.step op).Silent := by
  refine h.late (s.directory.step_heard ?_)
  cases op with
  | runPosted => exact absurd rfl hop
  | _ => simp [DirectoryOp.labelled]

theorem observers_subset {op : DirectoryOp} (hop : ∀ t n r, op ≠ .observe t n r) (d : Directory) :
    (d.step op).topics.observers ⊆ d.topics.observers := by
  intro e he
  rw [Directory.step_topics] at he
  rcases DirectoryTopicStore.mem_observers_run he with he | he
  · exact he
  · exact absurd (Directory.observe_mem_storeOps he) (hop _ _ _)

/-- A step that registers no observer and removes none. -/
theorem Inv.other (h : s.Inv) {op : DirectoryOp} (hobserve : ∀ t n r, op ≠ .observe t n r)
    (hunobserve : ∀ t r, op ≠ .unobserve t r) (hs : (s.step op).Silent) : (s.step op).Inv := by
  have hstep : s.step op = { s with directory := s.directory.step op, late := (s.step op).late } := by
    cases op with
    | observe t n r => exact absurd rfl (hobserve t n r)
    | unobserve t r => exact absurd rfl (hunobserve t r)
    | _ => rfl
  rw [hstep]
  exact ⟨hs, fun e he => h.observers e (observers_subset hobserve _ he), h.retired, h.lt, h.inj⟩

theorem Inv.observe (h : s.Inv) (topicName ref : Str) (handler : Nat) :
    (s.step (.observe topicName handler ref)).Inv where
  silent := h.silent_step (by simp)
  observers := by
    intro e he
    rcases List.mem_append.1 (show e ∈ s.directory.topics.observers ++ _ from he) with he | he
    · exact ⟨List.mem_append_left _ (h.observers e he).1, (h.observers e he).2⟩
    · obtain rfl := List.mem_singleton.1 he
      refine ⟨List.mem_append_right _ (List.mem_singleton_self _), fun hr => ?_⟩
      exact lt_irrefl _ (h.retired _ hr)
  retired handler hr := by
    show handler < (s.registered ++ [_]).length
    rw [List.length_append]
    exact Nat.lt_add_right _ (h.retired handler hr)
  lt := by
    intro e he
    show e.2.handler < (s.registered ++ [_]).length
    rw [List.length_append]
    rcases List.mem_append.1 he with he | he
    · exact Nat.lt_add_right _ (h.lt e he)
    · rw [List.mem_singleton.1 he]
      exact Nat.lt_succ_self _
  inj := by
    have hnew : ∀ e ∈ s.registered, e.2.handler ≠ s.registered.length := fun e he => (h.lt e he).ne
    intro e he e' he' heq
    rcases List.mem_append.1 he with he | he <;> rcases List.mem_append.1 he' with he' | he'
    · exact h.inj e he e' he' heq
    · rw [List.mem_singleton.1 he'] at heq
      exact absurd heq (hnew e he)
    · rw [List.mem_singleton.1 he] at heq
      exact absurd heq.symm (hnew e' he')
    · rw [List.mem_singleton.1 he, List.mem_singleton.1 he']

theorem Inv.unobserve (h : s.Inv) (topicName ref : Str) : (s.step (.unobserve topicName ref)).Inv where
  silent := h.silent_step (by simp)
  observers := by
    intro e he
    have he : e ∈ s.directory.topics.observers.filter fun e => ¬ (e.1 = topicName ∧ e.2.ref = ref) := he
    rw [List.mem_filter, decide_eq_true_eq] at he
    have ho := h.observers e he.1
    refine ⟨ho.1, fun hr => ?_⟩
    rcases List.mem_append.1 hr with hr | hr
    · exact ho.2 hr
    · obtain ⟨e', he', heq⟩ := List.mem_map.1 hr
      rw [List.mem_filter, decide_eq_true_eq] at he'
      exact he.2 (h.inj e' he'.1 e ho.1 heq ▸ he'.2)
  retired := by
    intro handler hr
    rcases List.mem_append.1 hr with hr | hr
    · exact h.retired handler hr
    · obtain ⟨e, he, rfl⟩ := List.mem_map.1 hr
      exact h.lt e (List.mem_filter.1 he).1
  lt := h.lt
  inj := h.inj

theorem runPosted_silent_iff (h : s.Silent) : (s.step .runPosted).Silent ↔ ¬ s.CallsRetired .runPosted := by
  have hsame : ∀ d : Directory, d.invoked = s.directory.invoked →
      s.late ++ ((d.invoked.drop s.directory.invoked.length).map Prod.fst).filter (· ∈ s.retired) = [] := by
    intro d hd
    rw [h, hd, List.drop_length]
    rfl
  rw [Silent, step, CallsRetired]
  dsimp only [DirectoryOp.labelled, Directory.step]
  rw [Directory.runPosted]
  split
  · next hp => exact iff_of_true (hsame _ rfl) (by simp [hp])
  next topicName handler posted hp =>
  rw [DirectoryTopicStore.callImmediate, hp]
  cases hm : s.directory.topics.networkTopics[topicName]? with
  | none =>
    have hnot : topicName ∉ s.directory.topics.networkTopics := by
      rw [ExtTreeMap.mem_iff_isSome_getElem?, hm]
      simp
    exact iff_of_true (hsame _ rfl) (by simp [hnot])
  | some guidTopicMap =>
    have hmem : topicName ∈ s.directory.topics.networkTopics := by
      rw [ExtTreeMap.mem_iff_isSome_getElem?, hm]
      rfl
    simp [show s.late = [] from h, hmem]

theorem Inv.step (h : s.Inv) {op : DirectoryOp} (hq : ¬ s.CallsRetired op) : (s.step op).Inv := by
  cases op with
  | observe topicName handler ref => exact h.observe topicName ref handler
  | unobserve topicName ref => exact h.unobserve topicName ref
  | runPosted => exact h.other (by simp) (by simp) ((runPosted_silent_iff h.silent).2 hq)
  | _ => exact h.other (by simp) (by simp) (h.silent_step (by simp))

/-- In every run, no handler is called after its `unobserve` just in case no closure that is left behind by a
retired handler runs at a time when its topic is known. -/
theorem silent_iff (myGuid : Str) (own : OwnAddress) (ops : List DirectoryOp) :
    Run.States step Silent { directory := .new myGuid own } ops ↔
      Run.Steps step (fun s op => ¬ s.CallsRetired op) { directory := .new myGuid own } ops := by
  refine Run.states_iff_steps (fun _ => Inv.silent) (fun _ _ h hq => h.step hq) ?_ (.init myGuid own)
  intro s op h hq hs
  cases op with
  | runPosted => exact hq ((runPosted_silent_iff h.silent).1 hs)
  | _ => exact hq id

/-- A client is made for a known topic and destroyed before the event loop runs. -/
theorem called_after_unobserve : ¬ ∀ ops : List DirectoryOp,
    Run.States step Silent { directory := .new "me".toList ⟨0, 0⟩ } ops := by
  intro h
  have hlast := (h [.add 1 "t".toList .pub "tcp://10.0.0.1:1".toList ∅ ∅ "me".toList, .observe "t".toList 0 "r".toList,
    .unobserve "t".toList "r".toList, .runPosted]).last
  exact absurd hlast (by rw [Silent]; decide)

end Observing
end A17.Dispatch
