import A17.Lib.Run
import A17.Dispatch.Search

/-!
# What is written into a send buffer

A send buffer has `EVENT_BUFFER_SIZE` bytes. `send` prints a message of any length into it; the packing loop of
`queryMissingTopics` looks at the space that is left before it puts another name into a buffer, but not before
it puts the first one there (`packWrites_fit_iff`). So everything fits just in case every announcement does,
with the tag and the guid before it, and every name that is searched for (`written_fit_iff`). Answers and
removals are no longer than the announcement they go back to.
-/

open Std

namespace A17.Dispatch
open CString

namespace Directory

/-- Where the writes of `packTopic` end in the buffer: `sprintf` if it begins a new one, the space, `strcpy`. -/
def packWrites (acc : Directory × QueryBuffer) (topicName : Str) : List Nat :=
  let q := (packTopic acc topicName).2
  let pos := q.pos - topicName.length
  (if q.count = 1 then [DISPATCH.length + (cString acc.1.myGuid).length + 2 + 1] else []) ++
    [pos, pos + (cString topicName).length + 1]

def requestWrites : Directory × QueryBuffer → List Str → List Nat
  | _, [] => []
  | acc, topicName :: requests => packWrites acc topicName ++ requestWrites (packTopic acc topicName) requests

/-- Where the writes of a step into send buffers end. A message that `send` hands to the socket was printed with
a NUL after it. -/
def writes (d : Directory) : DirectoryOp → List Nat
  | .complete success =>
    if d.queryTimer.completions.contains ((), success) && success then
      requestWrites (d.backOff, {}) d.topics.getMissing.toList
    else []
  | op => ((d.step op).sent.drop d.sent.length).map fun datagram => datagram.text.length + 1

/-! ## The packing loop -/

/-- Once there is a buffer, it has the tag, the guid and the command in it, and a name. -/
structure Packed (acc : Directory × QueryBuffer) : Prop where
  pos : acc.2.buf.isSome → DISPATCH.length + acc.1.myGuid.length + 2 ≤ acc.2.pos
  count : acc.2.buf.isSome → acc.2.count ≠ 0

/-- `packTopic` begins a new buffer. -/
def Fresh (q : QueryBuffer) (topicName : Str) : Prop :=
  q.buf.isNone ∨ q.pos + 1 + topicName.length ≥ EVENT_BUFFER_SIZE ∨ q.count ≥ 4

variable {acc : Directory × QueryBuffer} {topicName : Str}

theorem room_of_not_fresh {q : QueryBuffer} (h : ¬ Fresh q topicName) :
    q.buf.isSome ∧ q.pos + 1 + topicName.length < EVENT_BUFFER_SIZE := by
  rw [Fresh, not_or, not_or] at h
  refine ⟨?_, Nat.not_le.1 h.2.1⟩
  cases hb : q.buf with
  | none => exact absurd (by rw [hb]; rfl) h.1
  | some => rfl

theorem packTopic_myGuid (acc : Directory × QueryBuffer) (topicName : Str) :
    (packTopic acc topicName).1.myGuid = acc.1.myGuid := by
  obtain ⟨sent, h⟩ := acc.1.onlySent_packTopic acc.2 topicName
  rw [h]

theorem packTopic_of_fresh (h : Fresh acc.2 topicName) :
    (packTopic acc topicName).2.pos = DISPATCH.length + acc.1.myGuid.length + 2 + 1 + topicName.length ∧
      (packTopic acc topicName).2.count = 1 := by
  rw [Fresh] at h
  rw [packTopic, if_pos h]
  exact ⟨rfl, rfl⟩

theorem packTopic_of_not_fresh (h : ¬ Fresh acc.2 topicName) :
    (packTopic acc topicName).2.pos = acc.2.pos + 1 + topicName.length ∧
      (packTopic acc topicName).2.count = acc.2.count + 1 := by
  rw [Fresh] at h
  rw [packTopic, if_neg h]
  exact ⟨rfl, rfl⟩

theorem Packed.init (d : Directory) : Packed (d, {}) := ⟨by simp, by simp⟩

theorem Packed.packTopic (h : Packed acc) (topicName : Str) : Packed (packTopic acc topicName) := by
  by_cases hf : Fresh acc.2 topicName
  · obtain ⟨hpos, hcount⟩ := packTopic_of_fresh hf
    refine ⟨fun _ => ?_, fun _ => by rw [hcount]; exact one_ne_zero⟩
    rw [hpos, packTopic_myGuid]
    omega
  · obtain ⟨hpos, hcount⟩ := packTopic_of_not_fresh hf
    refine ⟨fun _ => ?_, fun _ => by rw [hcount]; exact Nat.succ_ne_zero _⟩
    have := h.pos (room_of_not_fresh hf).1
    rw [hpos, packTopic_myGuid]
    omega

theorem length_cString_le (s : Str) : (cString s).length ≤ s.length := (List.takeWhile_prefix _).length_le

/-- A name that is too long begins a new buffer, and does not fit there either. -/
theorem packWrites_fit_iff (h : Packed acc) (topicName : Str) :
    (∀ n ∈ packWrites acc topicName, n ≤ EVENT_BUFFER_SIZE) ↔
      DISPATCH.length + acc.1.myGuid.length + 2 + 1 + (cString topicName).length + 1 ≤ EVENT_BUFFER_SIZE := by
  have hg := length_cString_le acc.1.myGuid
  have hn := length_cString_le topicName
  rw [packWrites]
  by_cases hf : Fresh acc.2 topicName
  · obtain ⟨hpos, hcount⟩ := packTopic_of_fresh hf
    rw [if_pos hcount, hpos, Nat.add_sub_cancel]
    simp only [List.cons_append, List.nil_append, List.forall_mem_cons, List.not_mem_nil, false_implies, implies_true,
      and_true]
    omega
  · obtain ⟨hpos, hcount⟩ := packTopic_of_not_fresh hf
    obtain ⟨hbuf, hroom⟩ := room_of_not_fresh hf
    have hstart := h.pos hbuf
    have hcount : (packTopic acc topicName).2.count ≠ 1 := by
      have := h.count hbuf
      omega
    rw [if_neg hcount, hpos, Nat.add_sub_cancel]
    simp only [List.nil_append, List.forall_mem_cons, List.not_mem_nil, false_implies, implies_true, and_true]
    omega

theorem requestWrites_fit_iff (h : Packed acc) (requests : List Str) :
    (∀ n ∈ requestWrites acc requests, n ≤ EVENT_BUFFER_SIZE) ↔ ∀ topicName ∈ requests,
      DISPATCH.length + acc.1.myGuid.length + 2 + 1 + (cString topicName).length + 1 ≤ EVENT_BUFFER_SIZE := by
  induction requests generalizing acc with
  | nil => simp [requestWrites]
  | cons topicName requests ih =>
    rw [requestWrites, List.forall_mem_append, packWrites_fit_iff h, ih (h.packTopic topicName), packTopic_myGuid,
      List.forall_mem_cons]

/-! ## What is sent -/

/-- The message with these arguments, its NUL included, fits a send buffer. -/
def Fits (guid args : Str) : Prop :=
  DISPATCH.length + (cString guid).length + 3 + (cString args).length + 1 ≤ EVENT_BUFFER_SIZE

theorem message_length_le (guid : Str) (command : Char) (args : Str) :
    (message guid command args).length ≤ DISPATCH.length + (cString guid).length + 3 + (cString args).length := by
  rw [message]
  split <;> simp only [List.length_append, List.length_cons, List.length_nil] <;> omega

theorem message_length_of_ne_nil (guid : Str) (command : Char) {args : Str} (h : args ≠ []) :
    (message guid command args).length = DISPATCH.length + (cString guid).length + 3 + (cString args).length := by
  rw [message, if_pos (by simpa using h)]
  simp only [List.length_append, List.length_cons, List.length_nil]

theorem buildTopicInfo_ne_nil (name : Str) (socketType : SocketType) (address : Str) (ins outs : TypeSet) :
    buildTopicInfo name socketType address ins outs ≠ [] := by
  simp [buildTopicInfo]

theorem length_cString_le_append (s t : Str) : (cString s).length ≤ (cString (s ++ t)).length := by
  rw [cString, cString, List.takeWhile_append]
  split
  · next h =>
    rw [List.length_append, h]
    exact Nat.le_add_right ..
  · exact le_rfl

theorem length_cString_name_le (name : Str) (socketType : SocketType) (address : Str) (ins outs : TypeSet) :
    (cString name).length ≤ (cString (buildTopicInfo name socketType address ins outs)).length := by
  rw [buildTopicInfo]
  simp only [List.append_assoc]
  exact length_cString_le_append name _

end Directory

/-- A directory, and where the writes into its send buffers ended. -/
structure Writing where
  directory : Directory
  written : List Nat := []

namespace Writing
open Directory

def step (s : Writing) (op : DirectoryOp) : Writing :=
  { directory := s.directory.step op, written := s.written ++ s.directory.writes op }

def Fit (s : Writing) : Prop := ∀ n ∈ s.written, n ≤ EVENT_BUFFER_SIZE

/-- A topic is registered whose announcement is too long, or a name searched for that is. -/
def TooLong (s : Writing) : DirectoryOp → Prop
  | .add _ topicName socketType address inputTypes outputTypes guid =>
    guid = s.directory.myGuid ∧ topicName ∉ s.directory.topics.localTopics ∧
      ¬ Fits s.directory.myGuid (buildTopicInfo topicName socketType address inputTypes outputTypes)
  | .complete success => ((), success) ∈ s.directory.queryTimer.completions ∧ success = true ∧
    ∃ topicName ∈ s.directory.topics.getMissing, ¬ (DISPATCH.length + s.directory.myGuid.length + 2 + 1 +
      (cString topicName).length + 1 ≤ EVENT_BUFFER_SIZE)
  | _ => False

/-- Everything written fits, and the own topics can be announced and removed. -/
structure Inv (s : Writing) : Prop where
  fit : s.Fit
  directory : s.directory.Inv
  announced : ∀ (name : Str) (t : DirectoryTopic), s.directory.topics.localTopics[name]? = some t →
    Fits s.directory.myGuid t.info ∧ (cString name).length ≤ (cString t.info).length

end Writing

/-! ## The topics of a directory -/

namespace DirectoryTopicStore
variable {s : DirectoryTopicStore}

theorem localTopics_step {op : StoreOp} {name : Str} {t : DirectoryTopic}
    (h : (s.step op).1.localTopics[name]? = some t) : s.localTopics[name]? = some t ∨
      op = .add t ∧ t.guid = s.myGuid ∧ t.name = name ∧ name ∉ s.localTopics := by
  cases op with
  | observe | unobserve => exact .inl h
  | add t' =>
    rw [step] at h
    by_cases hg : t'.guid = s.myGuid
    · by_cases hn : t'.name ∈ s.localTopics
      · rw [s.add_of_duplicate hg hn] at h
        exact .inl h
      · rw [s.add_of_own hg hn, addNetwork_localTopics, ExtTreeMap.find_insert] at h
        split at h
        · next heq =>
          obtain rfl := Option.some.inj h
          exact .inr ⟨rfl, hg, heq, heq ▸ hn⟩
        · exact .inl h
    · rw [s.add_of_other hg, addNetwork_localTopics] at h
      exact .inl h
  | remove guid n =>
    rw [step] at h
    by_cases hg : guid = s.myGuid
    · subst hg
      rw [remove_of_own, eraseGuid_localTopics, ExtTreeMap.find_erase] at h
      split at h
      · cases h
      · exact .inl h
    · rw [s.remove_of_other n hg, eraseGuid_localTopics] at h
      exact .inl h
  | evict guid =>
    rw [step, evict_localTopics] at h
    exact .inl h

end DirectoryTopicStore

namespace Directory
variable {d : Directory}

theorem writes_of_sent {op : DirectoryOp} {new : List Datagram} (h : (d.step op).sent = d.sent ++ new)
    (hop : ∀ success, op ≠ .complete success) : d.writes op = new.map fun datagram => datagram.text.length + 1 := by
  have hw : d.writes op = ((d.step op).sent.drop d.sent.length).map fun datagram => datagram.text.length + 1 := by
    cases op with
    | complete success => exact absurd rfl (hop success)
    | _ => rfl
  rw [hw, h, List.drop_left]

theorem writes_eq_nil {op : DirectoryOp} (h : (d.step op).sent = d.sent) (hop : ∀ success, op ≠ .complete success) :
    d.writes op = [] :=
  writes_of_sent (h.trans (List.append_nil _).symm) hop

theorem writes_add (h : d.Inv) (now : Int) (name : Str) (socketType : SocketType) (address : Str) (ins outs : TypeSet)
    (guid : Str) : d.writes (.add now name socketType address ins outs guid) =
      if guid = d.myGuid ∧ name ∉ d.topics.localTopics then
        [DISPATCH.length + (cString d.myGuid).length + 3 +
          (cString (buildTopicInfo name socketType address ins outs)).length + 1]
      else [] := by
  by_cases hg : guid = d.myGuid
  · have hguid : (topicAt now name socketType address ins outs guid).guid = d.topics.myGuid := hg.trans h.guid.symm
    by_cases hn : name ∈ d.topics.localTopics
    · rw [if_neg fun hc => hc.2 hn]
      refine writes_eq_nil ?_ (by simp)
      rw [step, add, d.topics.add_of_duplicate hguid hn]
      rfl
    · have hsent : (d.step (.add now name socketType address ins outs guid)).sent = d.sent ++
          [⟨message d.myGuid DISCOVERY_AVAILABLE (buildTopicInfo name socketType address ins outs),
            (d.step (.add now name socketType address ins outs guid)).topics.localTopics⟩] := by
        rw [step, add, d.topics.add_of_own hguid hn]
        rfl
      rw [if_pos ⟨hg, hn⟩]
      refine (writes_of_sent hsent (by simp)).trans ?_
      rw [List.map_singleton, message_length_of_ne_nil _ _ (buildTopicInfo_ne_nil name socketType address ins outs)]
  · rw [if_neg fun hc => hg hc.1]
    exact writes_eq_nil (d.add_sent_of_other fun hc => hg (hc.trans h.guid)) (by simp)

theorem writes_remove (h : d.Inv) (name : Str) : d.writes (.remove name) =
    if name ∈ d.topics.localTopics then [(message d.myGuid DISCOVERY_REMOVE name).length + 1] else [] := by
  have hr : (d.topics.remove d.myGuid name).1 = d.topics.localTopics.contains name := by
    rw [← h.guid, d.topics.remove_of_own]
  by_cases hn : name ∈ d.topics.localTopics
  · have hsent : (d.step (.remove name)).sent =
        d.sent ++ [⟨message d.myGuid DISCOVERY_REMOVE name, (d.step (.remove name)).topics.localTopics⟩] := by
      rw [step, remove, hr, if_pos (ExtTreeMap.mem_iff_contains.1 hn)]
      rfl
    rw [if_pos hn]
    exact writes_of_sent hsent (by simp)
  · rw [if_neg hn]
    refine writes_eq_nil ?_ (by simp)
    rw [step, remove, hr, if_neg (by simpa using hn)]
    rfl

theorem answers_local {topics : ExtTreeMap Str DirectoryTopic} {name : Str} {t : DirectoryTopic}
    (h : t ∈ answers topics name) : ∃ n : Str, topics[n]? = some t := by
  rw [answers] at h
  split at h
  · obtain ⟨e, he, rfl⟩ := List.mem_map.1 h
    exact ⟨e.1, ExtTreeMap.mem_toList_iff_getElem?_eq_some.1 he⟩
  · exact ⟨name, Option.mem_toList.1 h⟩

/-- A datagram is answered with announcements of the directory's own topics. -/
theorem writes_receive (h : d.Inv) {now : Int} {bytes : Str} {n : Nat} (hn : n ∈ d.writes (.receive now bytes)) :
    ∃ (name : Str) (t : DirectoryTopic), d.topics.localTopics[name]? = some t ∧
      n = (message d.myGuid DISCOVERY_AVAILABLE t.info).length + 1 := by
  have hstep : d.step (.receive now bytes) = d.handle now (.decode d.myGuid (bytes.take EVENT_BUFFER_SIZE)) :=
    d.receive_eq now bytes
  have hguid : ∀ g, (Event.decode d.myGuid (bytes.take EVENT_BUFFER_SIZE)).guid? = some g → g ≠ d.topics.myGuid :=
    fun g hg => h.guid ▸ (Event.guid_decode hg).2
  generalize Event.decode d.myGuid (bytes.take EVENT_BUFFER_SIZE) = e at hstep hguid
  have hnil : (d.handle now e).sent = d.sent → ∃ (name : Str) (t : DirectoryTopic),
      d.topics.localTopics[name]? = some t ∧ n = (message d.myGuid DISCOVERY_AVAILABLE t.info).length + 1 := by
    intro hs
    have hw : d.writes (.receive now bytes) = [] := writes_eq_nil (by rw [hstep, hs]) (by simp)
    rw [hw] at hn
    cases hn
  cases e with
  | search guid names =>
    have hsent : (d.step (.receive now bytes)).sent =
        d.sent ++ (names.flatMap (answers d.topics.localTopics)).map d.announce := by
      rw [hstep, handle, foldl_searchReply_answers]
    rw [writes_of_sent hsent (by simp), List.map_map] at hn
    obtain ⟨t, ht, rfl⟩ := List.mem_map.1 hn
    obtain ⟨name, -, ht⟩ := List.mem_flatMap.1 ht
    obtain ⟨k, hk⟩ := answers_local ht
    exact ⟨k, t, hk, rfl⟩
  | ignored | exit | remove => exact hnil rfl
  | available guid name type address ins outs =>
    refine hnil ?_
    rw [handle, available]
    split
    · split
      · rfl
      · exact d.add_sent_of_other (hguid guid rfl)
    · rfl

theorem writes_complete_fit_iff (d : Directory) (success : Bool) :
    (∀ n ∈ d.writes (.complete success), n ≤ EVENT_BUFFER_SIZE) ↔
      ¬ Writing.TooLong { directory := d } (.complete success) := by
  obtain ⟨timer, interval, hb, -⟩ := d.backOff_eq
  have hg : d.backOff.myGuid = d.myGuid := by rw [hb]
  rw [writes, Writing.TooLong]
  split
  · next hc =>
    obtain ⟨hmem, rfl⟩ : ((), success) ∈ d.queryTimer.completions ∧ success = true := by simpa using hc
    rw [requestWrites_fit_iff (.init _), hg]
    simp only [hmem, true_and, not_exists, not_and, not_not, ExtTreeSet.mem_toList]
  · next hc =>
    refine iff_of_true (by simp) fun h => hc ?_
    simpa using And.intro h.1 h.2.1

end Directory

/-! ## Runs -/

namespace Writing
open Directory
variable {s : Writing}

theorem fit_step_iff (h : s.Fit) (op : DirectoryOp) :
    (s.step op).Fit ↔ ∀ n ∈ s.directory.writes op, n ≤ EVENT_BUFFER_SIZE := by
  rw [Fit, step, List.forall_mem_append]
  exact and_iff_right h

theorem Inv.writes_fit_iff (h : s.Inv) (op : DirectoryOp) :
    (∀ n ∈ s.directory.writes op, n ≤ EVENT_BUFFER_SIZE) ↔ ¬ s.TooLong op := by
  have hnil : ∀ {op : DirectoryOp}, s.directory.writes op = [] →
      ∀ n ∈ s.directory.writes op, n ≤ EVENT_BUFFER_SIZE := by
    intro op heq
    simp [heq]
  cases op with
  | observe | unobserve | expire => exact iff_of_true (hnil (writes_eq_nil rfl (by simp))) id
  | runPosted =>
    refine iff_of_true (hnil (writes_eq_nil ?_ (by simp))) id
    rw [Directory.step, runPosted]
    split
    · rfl
    · split <;> rfl
  | add now name socketType address ins outs guid =>
    rw [writes_add h.directory, TooLong, Fits]
    split
    · next hc => simp [hc]
    · next hc => exact iff_of_true (by simp) fun htoo => hc ⟨htoo.1, htoo.2.1⟩
  | remove name =>
    refine iff_of_true ?_ id
    rw [writes_remove h.directory]
    split
    · next hn =>
      obtain ⟨t, ht⟩ := Option.isSome_iff_exists.1 (ExtTreeMap.mem_iff_isSome_getElem?.1 hn)
      obtain ⟨hfits, hle⟩ := h.announced name t ht
      have := message_length_le s.directory.myGuid DISCOVERY_REMOVE name
      rw [Fits] at hfits
      simp only [List.mem_singleton, forall_eq]
      omega
    · simp
  | receive now bytes =>
    refine iff_of_true (fun n hn => ?_) id
    obtain ⟨name, t, ht, rfl⟩ := writes_receive h.directory hn
    have hfits := (h.announced name t ht).1
    have := message_length_le s.directory.myGuid DISCOVERY_AVAILABLE t.info
    rw [Fits] at hfits
    omega
  | complete success => exact s.directory.writes_complete_fit_iff success

/-- What is announced is what was registered. -/
theorem Inv.announced_step (h : s.Inv) {op : DirectoryOp} (hq : ¬ s.TooLong op) {name : Str} {t : DirectoryTopic}
    (ht : (s.directory.step op).topics.localTopics[name]? = some t) :
    Fits s.directory.myGuid t.info ∧ (cString name).length ≤ (cString t.info).length := by
  rw [step_topics] at ht
  have hone : ∀ sop : StoreOp, (s.directory.topics.step sop).1.localTopics[name]? = some t →
      (∀ t', sop = .add t' → t'.guid = s.directory.myGuid → t'.name = name → name ∉ s.directory.topics.localTopics →
        Fits s.directory.myGuid t'.info ∧ (cString name).length ≤ (cString t'.info).length) →
      Fits s.directory.myGuid t.info ∧ (cString name).length ≤ (cString t.info).length := by
    intro sop hsop hadd
    rcases DirectoryTopicStore.localTopics_step hsop with hold | ⟨heq, hg, hn, hnew⟩
    · exact h.announced name t hold
    · exact hadd t heq (hg.trans h.directory.guid) hn hnew
  cases op with
  | observe n handler ref => exact hone (.observe n handler ref) ht (by simp)
  | unobserve n ref => exact hone (.unobserve n ref) ht (by simp)
  | remove n => exact hone (.remove _ n) ht (by simp)
  | expire | complete | runPosted => exact h.announced name t ht
  | add now n socketType address ins outs guid =>
    refine hone (.add (topicAt now n socketType address ins outs guid)) ht ?_
    rintro _ ⟨⟩ hg rfl hnew
    refine ⟨?_, length_cString_name_le ..⟩
    by_contra hfits
    exact hq ⟨hg, hnew, hfits⟩
  | receive now bytes =>
    have hguid : ∀ g, (Event.decode s.directory.myGuid (bytes.take EVENT_BUFFER_SIZE)).guid? = some g →
        g ≠ s.directory.myGuid := fun g hg => (Event.guid_decode hg).2
    rw [storeOps] at ht
    generalize Event.decode s.directory.myGuid (bytes.take EVENT_BUFFER_SIZE) = e at ht hguid
    cases e with
    | ignored | search => exact h.announced name t ht
    | exit g => exact hone (.evict g) ht (by simp)
    | remove g n => exact hone (.remove g n) ht (by simp)
    | available g n type address ins outs =>
      rw [eventOps] at ht
      split at ht
      · split at ht
        · exact h.announced name t ht
        · refine hone (.add _) ht ?_
          rintro _ ⟨⟩ hg
          exact absurd hg (hguid g rfl)
      · exact h.announced name t ht

theorem Inv.step (h : s.Inv) {op : DirectoryOp} (hq : ¬ s.TooLong op) : (s.step op).Inv where
  fit := (fit_step_iff h.fit op).2 ((h.writes_fit_iff op).2 hq)
  directory := h.directory.step op
  announced name t ht := by
    show Fits (s.directory.step op).myGuid t.info ∧ _
    rw [step_myGuid]
    exact h.announced_step hq ht

theorem Inv.init (myGuid : Str) (own : OwnAddress) : Inv { directory := .new myGuid own } where
  fit := by simp [Fit]
  directory := .of_new myGuid own
  announced := by simp [Directory.new, DirectoryTopicStore.new]

/-- In every run everything that is written into a send buffer fits, just in case no topic is registered, and
no name searched for, that is too long. -/
theorem written_fit_iff (myGuid : Str) (own : OwnAddress) (ops : List DirectoryOp) :
    Run.States step Fit { directory := .new myGuid own } ops ↔
      Run.Steps step (fun s op => ¬ s.TooLong op) { directory := .new myGuid own } ops := by
  refine Run.states_iff_steps (fun _ => Inv.fit) (fun _ _ h hq => h.step hq) ?_ (.init myGuid own)
  intro s op h hq hfit
  exact hq ((h.writes_fit_iff op).1 ((fit_step_iff h.fit op).1 hfit))

/-- A topic with a name of `EVENT_BUFFER_SIZE` characters is registered. -/
theorem announcement_overflows : ¬ ∀ (myGuid : Str) (own : OwnAddress) (ops : List DirectoryOp),
    Run.States step Fit { directory := .new myGuid own } ops := by
  intro h
  let name : Str := List.replicate EVENT_BUFFER_SIZE 'a'
  let op : DirectoryOp := .add 0 name .pub "tcp://10.0.0.1:1".toList ∅ ∅ "me".toList
  have hinit := Inv.init "me".toList ⟨0, 0⟩
  have hfit := (h "me".toList ⟨0, 0⟩ [op]).last
  refine (hinit.writes_fit_iff op).1 ((fit_step_iff hinit.fit op).1 hfit) ⟨rfl, ?_, ?_⟩
  · simp [Directory.new, DirectoryTopicStore.new]
  · have hname : (cString name).length = EVENT_BUFFER_SIZE := by
      rw [cString_eq_self (by simp [name, NUL])]
      exact List.length_replicate
    have hle := length_cString_name_le name .pub "tcp://10.0.0.1:1".toList ∅ ∅
    rw [Fits]
    omega

end Writing
end A17.Dispatch
