import A17.Dispatch.RoundTrip
import A17.Dispatch.Runs

/-!
# Searching for topics

The packing loop of `queryMissingTopics` cuts the missing names, in order, into batches of one to
four that fit a datagram (`Packing`); another directory answers every name of every batch that it has
a local topic for, and nothing else. `search_answered` puts the two together.
-/

open Std

namespace A17.Dispatch
open CString

/-- The topics that are announced for one name of a search. -/
def answers (topics : ExtTreeMap Str DirectoryTopic) (name : Str) : List DirectoryTopic :=
  if name = ['*'] then topics.toList.map (·.2) else topics[name]?.toList

namespace Directory

def searchText (guid : Str) (names : List Str) : Str :=
  DISPATCH ++ guid ++ [' ', DISCOVERY_SEARCH] ++ names.flatMap (' ' :: ·)

def searches (d : Directory) (batches : List (List Str)) : List Datagram :=
  batches.map fun names => ⟨searchText d.myGuid names, d.topics.localTopics⟩

structure Batch (guid : Str) (names : List Str) : Prop where
  pos : 1 ≤ names.length
  le : names.length ≤ 4
  fits : (searchText guid names).length < EVENT_BUFFER_SIZE

theorem searchText_concat (guid : Str) (names : List Str) (name : Str) :
    searchText guid (names ++ [name]) = searchText guid names ++ ' ' :: name := by
  simp [searchText]

/-! ### Packing -/

def holding (guid : Str) (names : List Str) : QueryBuffer :=
  ⟨some (searchText guid names ++ [NUL]), names.length, (searchText guid names).length,
    (searchText guid []).length⟩

/-- `buf[pos++] = ' '; strcpy(&buf[pos], name)` at the end of the text. -/
theorem set_take_append (text : Str) {name : Str} (h : NUL ∉ name) :
    ((text ++ [NUL]).set text.length ' ').take (text.length + 1) ++ cString name ++ [NUL] =
      (text ++ ' ' :: name) ++ [NUL] := by
  have hset : (text ++ [NUL]).set text.length ' ' = text ++ [' '] := by simp
  have hlen : text.length + 1 = (text ++ [' ']).length := by simp
  rw [cString_eq_self h, hset, hlen, List.take_length]
  simp

variable {d : Directory} {name : Str}

theorem packTopic_fresh (hg : NUL ∉ d.myGuid) (hname : NUL ∉ name) :
    packTopic (d, {}) name = (d, holding d.myGuid [name]) := by
  have hstart : DISPATCH.length + d.myGuid.length + 2 = (searchText d.myGuid []).length := by
    simp [searchText]; omega
  have hbuf : DISPATCH ++ cString d.myGuid ++ [' ', DISCOVERY_SEARCH] ++ [NUL] = searchText d.myGuid [] ++ [NUL] := by
    simp [searchText, cString_eq_self hg]
  have h1 : searchText d.myGuid [name] = searchText d.myGuid [] ++ ' ' :: name := searchText_concat _ [] _
  simp only [packTopic, Option.isNone_none, true_or, if_true, hbuf, hstart, Option.getD_some,
    set_take_append _ hname, holding, h1, List.length_append, List.length_cons, List.length_nil]
  congr 2
  omega

theorem packTopic_flush {cur : List Str} (hg : NUL ∉ d.myGuid) (hname : NUL ∉ name)
    (h : (searchText d.myGuid cur).length + 1 + name.length ≥ EVENT_BUFFER_SIZE ∨ cur.length ≥ 4) :
    packTopic (d, holding d.myGuid cur) name =
      (d.send_ (searchText d.myGuid cur), holding d.myGuid [name]) := by
  have hfresh := packTopic_fresh (d := d.send_ (searchText d.myGuid cur)) hg hname
  have hc : (holding d.myGuid cur).buf.isNone = true ∨
      (holding d.myGuid cur).pos + 1 + name.length ≥ EVENT_BUFFER_SIZE ∨ (holding d.myGuid cur).count ≥ 4 :=
    .inr h
  rw [← show d.myGuid = (d.send_ (searchText d.myGuid cur)).myGuid from rfl] at hfresh
  rw [← hfresh, packTopic, packTopic, if_pos hc, if_pos (.inl rfl)]
  simp only [holding, List.take_left]
  rfl

theorem packTopic_append {cur : List Str} (hname : NUL ∉ name)
    (h : ¬ ((searchText d.myGuid cur).length + 1 + name.length ≥ EVENT_BUFFER_SIZE ∨ cur.length ≥ 4)) :
    packTopic (d, holding d.myGuid cur) name = (d, holding d.myGuid (cur ++ [name])) := by
  have hc : ¬ ((holding d.myGuid cur).buf.isNone = true ∨
      (holding d.myGuid cur).pos + 1 + name.length ≥ EVENT_BUFFER_SIZE ∨ (holding d.myGuid cur).count ≥ 4) := by
    rintro (h0 | h0)
    · cases h0
    · exact h h0
  rw [packTopic, if_neg hc]
  simp only [holding, Option.getD_some, set_take_append _ hname, searchText_concat, List.length_append,
    List.length_cons, List.length_nil]
  congr 2
  omega

/-- After the loop has taken `names`: `batches` are sent, `cur` stands in the buffer. -/
structure Packing (d : Directory) (names : List Str) (batches : List (List Str)) (cur : List Str)
    (acc : Directory × QueryBuffer) : Prop where
  sent : acc.1 = { d with sent := d.sent ++ d.searches batches }
  batch : ∀ b ∈ batches, Batch d.myGuid b
  flatten : batches.flatten ++ cur = names
  buffer : (batches = [] ∧ cur = [] ∧ acc.2 = {}) ∨ (Batch d.myGuid cur ∧ acc.2 = holding d.myGuid cur)

theorem Packing.step {names : List Str} {batches : List (List Str)} {cur : List Str}
    {acc : Directory × QueryBuffer} (h : Packing d names batches cur acc)
    (hg : NUL ∉ d.myGuid) (hname : NUL ∉ name)
    (hfit : DISPATCH.length + d.myGuid.length + 2 + 1 + name.length < EVENT_BUFFER_SIZE) :
    ∃ batches' cur', Packing d (names ++ [name]) batches' cur' (packTopic acc name) := by
  obtain ⟨d', q⟩ := acc
  obtain ⟨rfl : d' = _, hbatch, hflat, hbuf⟩ := h
  have hone : Batch d.myGuid [name] := ⟨by simp, by simp, by simp [searchText]; omega⟩
  rcases hbuf with ⟨rfl, rfl, rfl : q = _⟩ | ⟨hcur, rfl : q = _⟩
  · have hp := packTopic_fresh (d := { d with sent := d.sent ++ d.searches [] }) hg hname
    refine ⟨[], [name], ?_, by simp, by simp [← hflat], .inr ⟨hone, ?_⟩⟩ <;> rw [hp]
  · by_cases hfull : (searchText d.myGuid cur).length + 1 + name.length ≥ EVENT_BUFFER_SIZE ∨ cur.length ≥ 4
    · have hp := packTopic_flush (d := { d with sent := d.sent ++ d.searches batches }) hg hname hfull
      refine ⟨batches ++ [cur], [name], ?_, ?_, by simp [← hflat], .inr ⟨hone, ?_⟩⟩
      · rw [hp]; simp [send_, searches]
      · exact List.forall_mem_append.2 ⟨hbatch, List.forall_mem_singleton.2 hcur⟩
      · rw [hp]
    · have hp := packTopic_append (d := { d with sent := d.sent ++ d.searches batches }) hname hfull
      refine ⟨batches, cur ++ [name], ?_, hbatch, by simp [← hflat], .inr ⟨⟨?_, ?_, ?_⟩, ?_⟩⟩
      · rw [hp]
      · simp
      · simp; omega
      · simp [searchText_concat]; omega
      · rw [hp]

theorem Packing.run {names : List Str} (hg : NUL ∉ d.myGuid)
    (h : ∀ name ∈ names, NUL ∉ name ∧
      DISPATCH.length + d.myGuid.length + 2 + 1 + name.length < EVENT_BUFFER_SIZE) :
    ∃ batches cur, Packing d names batches cur (names.foldl packTopic (d, {})) := by
  induction names using List.reverseRecOn with
  | nil => exact ⟨[], [], by simp [searches], by simp, by simp, .inl ⟨rfl, rfl, rfl⟩⟩
  | append_singleton names name ih =>
    obtain ⟨batches, cur, hp⟩ := ih fun n hn => h n (by simp [hn])
    obtain ⟨hnul, hfit⟩ := h name (by simp)
    rw [List.foldl_append]
    exact hp.step hg hnul hfit

theorem sendRequests_eq (names : List Str) (hg : NUL ∉ d.myGuid)
    (h : ∀ name ∈ names, NUL ∉ name ∧
      DISPATCH.length + d.myGuid.length + 2 + 1 + name.length < EVENT_BUFFER_SIZE) :
    ∃ batches, d.sendRequests names = { d with sent := d.sent ++ d.searches batches } ∧
      (∀ b ∈ batches, Batch d.myGuid b) ∧ batches.flatten = names := by
  obtain ⟨batches, cur, hp⟩ := Packing.run hg h
  unfold sendRequests
  generalize names.foldl packTopic (d, {}) = acc at hp ⊢
  obtain ⟨d', q⟩ := acc
  obtain ⟨rfl : d' = _, hbatch, hflat, hbuf⟩ := hp
  rcases hbuf with ⟨rfl, rfl, rfl : q = _⟩ | ⟨hcur, rfl : q = _⟩
  · exact ⟨[], by simp, by simp, by simpa using hflat⟩
  · refine ⟨batches ++ [cur], ?_, ?_, by simpa using hflat⟩
    · have hpos : (searchText d.myGuid []).length < (searchText d.myGuid cur).length := by
        obtain ⟨n, ns, rfl⟩ := List.exists_cons_of_length_pos hcur.pos
        simp [searchText]
      simp [holding, hpos, send_, searches]
    · exact List.forall_mem_append.2 ⟨hbatch, List.forall_mem_singleton.2 hcur⟩

theorem queryMissingTopics_sent (hg : NUL ∉ d.myGuid)
    (h : ∀ name ∈ d.topics.getMissing, NUL ∉ name ∧
      DISPATCH.length + d.myGuid.length + 2 + 1 + name.length < EVENT_BUFFER_SIZE) :
    ∃ batches, (d.queryMissingTopics true).sent = d.sent ++ d.searches batches ∧
      (∀ b ∈ batches, Batch d.myGuid b) ∧ batches.flatten = d.topics.getMissing.toList := by
  rw [queryMissingTopics, if_neg (by simp)]
  dsimp only
  by_cases hm : d.topics.getMissing.isEmpty = true
  · have : d.topics.getMissing = ∅ := by simpa using hm
    exact ⟨[], by simp [hm, searches], by simp, by simp [this]⟩
  · obtain ⟨timer, interval, hb, -⟩ := d.backOff_eq
    obtain ⟨batches, hsend, hbatch, hflat⟩ :=
      sendRequests_eq (d := d.backOff) d.topics.getMissing.toList (by rw [hb]; exact hg)
        (fun n hn => by rw [hb]; exact h n (ExtTreeSet.mem_toList.1 hn))
    rw [if_neg hm, hsend]
    rw [hb] at hbatch ⊢
    exact ⟨batches, rfl, hbatch, hflat⟩

/-! ### Answering -/

theorem searchText_cons (guid n : Str) (ns : List Str) :
    searchText guid (n :: ns) = DISPATCH ++ guid ++ [' ', DISCOVERY_SEARCH, ' '] ++ [' '].intercalate (n :: ns) := by
  have h : (n :: ns).flatMap (' ' :: ·) = ' ' :: [' '].intercalate (n :: ns) := by
    induction ns generalizing n with
    | nil => simp
    | cons m ns ih => rw [List.flatMap_cons, ih, List.intercalate_cons_cons]; simp
  rw [searchText, h]; simp

section
variable {guid : Str} {names : List Str} (hn : ∀ n ∈ names, Token n) (hpos : names ≠ [])
include hn

theorem intercalate_names_print : ∀ c ∈ [' '].intercalate names, isprint c = true := by
  intro c hc
  rcases mem_intercalate hc with rfl | ⟨n, h, hc⟩
  · rfl
  · exact (hn n h).print c hc

include hpos

theorem intercalate_names_ne_nil : [' '].intercalate names ≠ [] := by
  intro h0
  have hs := List.splitOn_intercalate ' ' (fun n h => (hn n h).space) hpos
  rw [h0] at hs
  exact (hn [] (hs ▸ by simp)).ne_nil rfl

theorem searchText_eq_message (hg : ∀ x ∈ guid, isprint x = true) :
    searchText guid names = message guid DISCOVERY_SEARCH ([' '].intercalate names) := by
  rw [message, if_pos (by simpa using intercalate_names_ne_nil hn hpos),
    cString_eq_self (NUL_notMem_of_isprint hg),
    cString_eq_self (NUL_notMem_of_isprint (intercalate_names_print hn))]
  obtain ⟨n, ns, rfl⟩ := List.exists_cons_of_ne_nil hpos
  exact searchText_cons guid n ns

theorem decode_searchText {myGuid : Str} (hg : ∀ x ∈ guid, isprint x = true) (hgs : ' ' ∉ guid)
    (hne : guid ≠ cString myGuid) : Event.decode myGuid (searchText guid names) = .search guid names := by
  have hfilter : names.filter (fun n => decide (n ≠ [])) = names :=
    List.filter_eq_self.2 fun n h => by simpa using (hn n h).ne_nil
  rw [searchText_eq_message hn hpos hg,
    decode_message hg hgs rfl (by decide) (intercalate_names_print hn) hne,
    if_neg (intercalate_names_ne_nil hn hpos), List.splitOn_intercalate ' ' (fun n h => (hn n h).space) hpos]
  simp only [Event.ofCommand, hfilter]
  rfl

end

def replies (d : Directory) (names : List Str) : List Datagram :=
  names.filterMap fun n => d.topics.localTopics[n]?.map fun topic =>
    ⟨message d.myGuid DISCOVERY_AVAILABLE topic.info, d.topics.localTopics⟩

def announce (d : Directory) (t : DirectoryTopic) : Datagram :=
  ⟨message d.myGuid DISCOVERY_AVAILABLE t.info, d.topics.localTopics⟩

theorem foldl_send (d : Directory) (topics : List DirectoryTopic) :
    topics.foldl (fun d t => d.send DISCOVERY_AVAILABLE t.info) d =
      { d with sent := d.sent ++ topics.map d.announce } := by
  induction topics generalizing d with
  | nil => simp
  | cons t ts ih =>
    rw [List.foldl_cons, ih]
    simp only [send, send_, List.append_assoc, List.singleton_append, List.map_cons]
    rfl

theorem searchReply_answers (d : Directory) (name : Str) :
    d.searchReply name = { d with sent := d.sent ++ (answers d.topics.localTopics name).map d.announce } := by
  rw [← foldl_send, searchReply, answers]
  split
  · rw [List.foldl_map]
  · rw [DirectoryTopicStore.findLocal]
    cases d.topics.localTopics[name]? <;> rfl

theorem foldl_searchReply_answers (d : Directory) (names : List Str) :
    names.foldl searchReply d =
      { d with sent := d.sent ++ (names.flatMap (answers d.topics.localTopics)).map d.announce } := by
  induction names generalizing d with
  | nil => simp
  | cons n ns ih =>
    rw [List.foldl_cons, searchReply_answers, ih]
    simp only [List.append_assoc, List.map_append, List.flatMap_cons]
    rfl

theorem foldl_searchReply {names : List Str} (hn : ∀ n ∈ names, n ≠ ['*']) :
    names.foldl searchReply d = { d with sent := d.sent ++ d.replies names } := by
  have hmap : (names.flatMap (answers d.topics.localTopics)).map d.announce = d.replies names := by
    induction names with
    | nil => rfl
    | cons n ns ih =>
      rw [List.flatMap_cons, List.map_append, ih fun m hm => hn m (by simp [hm]), answers, if_neg (hn n (by simp))]
      cases h : d.topics.localTopics[n]? <;> simp [replies, announce, h]
  rw [foldl_searchReply_answers, hmap]

def events (d : Directory) (now : Int) (texts : List Str) : Except Fault Directory :=
  texts.foldlM (fun d text => d.event now text) d

theorem events_searches {a b : Directory} {now : Int} {batches : List (List Str)}
    (hg : ∀ x ∈ a.myGuid, isprint x = true) (hgs : ' ' ∉ a.myGuid) (hne : a.myGuid ≠ cString b.myGuid)
    (hb : ∀ names ∈ batches, Batch a.myGuid names) (hn : ∀ n ∈ batches.flatten, Token n ∧ n ≠ ['*']) :
    b.events now ((a.searches batches).map Datagram.text) =
      .ok { b with sent := b.sent ++ b.replies batches.flatten } := by
  induction batches generalizing b with
  | nil => simp [events, searches, replies]; rfl
  | cons names batches ih =>
    have hB := hb names (by simp)
    have hnames : ∀ n ∈ names, Token n ∧ n ≠ ['*'] := fun n h => hn n (by simp [h])
    have hev : b.event now (searchText a.myGuid names) = .ok { b with sent := b.sent ++ b.replies names } := by
      rw [b.event_eq now hB.fits.le, decode_searchText (fun n h => (hnames n h).1)
        (List.length_pos_iff.1 hB.pos) hg hgs hne, handle, foldl_searchReply fun n h => (hnames n h).2]
    have hrest := ih (b := { b with sent := b.sent ++ b.replies names }) hne
      (fun ns h => hb ns (by simp [h])) (fun n h => hn n (by rw [List.flatten_cons]; simp [h]))
    rw [events] at hrest ⊢
    rw [searches, List.map_cons, List.map_cons, List.foldlM_cons, hev, ok_bind]
    refine hrest.trans ?_
    simp [replies, List.filterMap_append]

/-! ### The query and its answers -/

structure Requestable (d : Directory) (name : Str) : Prop where
  token : Token name
  ne_star : name ≠ ['*']
  fits : DISPATCH.length + d.myGuid.length + 2 + 1 + name.length < EVENT_BUFFER_SIZE

/-- One query of `a` asks for each missing name once, in order, in datagrams of one to four names; `b`
replies to each name that is one of its own topics, and does nothing else. -/
def Answered (a b : Directory) (now : Int) : Prop :=
  ∃ batches : List (List Str),
    (a.queryMissingTopics true).sent = a.sent ++ a.searches batches ∧
    (∀ names ∈ batches, Batch a.myGuid names) ∧
    (∀ n, n ∈ batches.flatten ↔ n ∈ a.topics.getMissing) ∧
    batches.flatten.Pairwise (fun m n => compare m n = .lt) ∧
    b.events now ((a.searches batches).map Datagram.text) =
      .ok { b with sent := b.sent ++ b.replies batches.flatten }

/-- Every query is packed and answered as it should be, if the sender's guid is a single word. -/
theorem search_answered (a b : Directory) (now : Int) (hnames : ∀ n ∈ a.topics.getMissing, a.Requestable n)
    (hguid : ∀ x ∈ a.myGuid, isprint x = true) (hspace : ' ' ∉ a.myGuid) (hne : a.myGuid ≠ cString b.myGuid) :
    Answered a b now := by
  obtain ⟨batches, hsent, hbatch, hflat⟩ := queryMissingTopics_sent (NUL_notMem_of_isprint hguid)
    fun n hn => ⟨(hnames n hn).token.nul, (hnames n hn).fits⟩
  have hmem : ∀ n, n ∈ batches.flatten ↔ n ∈ a.topics.getMissing := by
    intro n
    rw [hflat, ExtTreeSet.mem_toList]
  refine ⟨batches, hsent, hbatch, hmem, hflat ▸ ExtTreeSet.ordered_toList, ?_⟩
  refine events_searches hguid hspace hne hbatch fun n hn => ?_
  have := hnames n ((hmem n).1 hn)
  exact ⟨this.token, this.ne_star⟩

/-- Seven names, of which the provider has the third and the sixth. -/
def seekerOfSeven : Directory :=
  ["u", "t", "x", "y", "s", "w", "v"].foldl (fun d n => d.observe n.toList 0 "r".toList) (onTen "n1")

def providerOfTwo : Directory :=
  let d := ((onTen "n2").add 5 "u".toList .pub "tcp://10.0.0.1:4000".toList ∅ ∅ "n2".toList).2
  (d.add 5 "x".toList .rep "tcp://10.0.0.1:4001".toList ∅ ∅ "n2".toList).2

theorem search_answered_seven_names : Answered seekerOfSeven providerOfTwo 9 ∧
    seekerOfSeven.topics.getMissing.toList = ["s", "t", "u", "v", "w", "x", "y"].map String.toList := by
  have hmissing : seekerOfSeven.topics.getMissing.toList = ["s", "t", "u", "v", "w", "x", "y"].map String.toList := by
    decide
  have hnames : ∀ n ∈ ["s", "t", "u", "v", "w", "x", "y"].map String.toList,
      Token n ∧ n ≠ ['*'] ∧ n.length = 1 := by decide
  refine ⟨search_answered seekerOfSeven providerOfTwo 9 (fun n hn => ?_) (by decide) (by decide) (by decide), hmissing⟩
  rw [← ExtTreeSet.mem_toList, hmissing] at hn
  obtain ⟨htoken, hstar, hlen⟩ := hnames n hn
  exact ⟨htoken, hstar, by rw [hlen]; decide⟩

def seeker (guid : String) : Directory := (onTen guid).observe "t".toList 0 "r".toList

def provider : Directory :=
  ((onTen "n2").add 5 "t".toList .pub "tcp://10.0.0.1:4000".toList ∅ ∅ "n2".toList).2

theorem requestable_seeker {guid : String}
    (h : DISPATCH.length + guid.toList.length + 2 + 1 + 1 < EVENT_BUFFER_SIZE) :
    ∀ n ∈ (seeker guid).topics.getMissing, (seeker guid).Requestable n := by
  intro n hn
  rw [show (seeker guid).topics.getMissing = (∅ : ExtTreeSet Str).insert "t".toList from rfl,
    ExtTreeSet.mem_insert, Std.LawfulEqCmp.compare_eq_iff_eq] at hn
  obtain rfl : "t".toList = n := by simpa using hn
  exact ⟨by decide, by decide, h⟩

/-- With a space in the guid the receiver takes the second word for the command, and does not reply. -/
theorem search_unanswered_of_space :
    (∀ n ∈ (seeker "a b").topics.getMissing, (seeker "a b").Requestable n) ∧
      (seeker "a b").myGuid ≠ provider.myGuid ∧ ¬ Answered (seeker "a b") provider 9 := by
  refine ⟨requestable_seeker (by decide), by decide, ?_⟩
  rintro ⟨batches, hsent, -, hmem, -, hev⟩
  have hs : (seeker "a b").searches batches = ((seeker "a b").queryMissingTopics true).sent := by
    rw [hsent]; rfl
  rw [hs] at hev
  have hnone : provider.events 9 (((seeker "a b").queryMissingTopics true).sent.map Datagram.text) = .ok provider :=
    rfl
  rw [hnone] at hev
  have hnil : provider.replies batches.flatten = [] := by
    have hl := congrArg (fun d : Directory => d.sent.length) (Except.ok.inj hev)
    simpa using hl
  have ht : "t".toList ∈ batches.flatten := (hmem _).2 (ExtTreeSet.mem_toList.1 (by decide))
  have := List.filterMap_eq_nil_iff.1 hnil _ ht
  exact absurd this (by decide)

end Directory
end A17.Dispatch
