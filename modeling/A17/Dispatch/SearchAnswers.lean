import A17.Dispatch.Py.Directory
import A17.Dispatch.Search

/-!
# Answers to a search, in C++ and in Python

Two directories that hold the same local topics answer a search alike, up to two things that only one
of them knows: the wildcard `*`, which only `directory.cpp` answers, and the socket types that
`dispatch.py` has no name for. `sameAnswers_iff` says that nothing else comes between them; that one of
the two does is seen by counting the answers.
-/

open Std

namespace A17.Dispatch
open CString

/-! ### The same local topics -/

def SameTypes (types : TypeSet) : Option Str → Prop
  | none => types = ∅
  | some type => type ≠ [] ∧ NUL ∉ type ∧ types = (∅ : TypeSet).insert type

/-- What both directories hold under the name `n`. Python has at most one type in each direction. -/
structure SameTopic (n : Str) (t : DirectoryTopic) (t' : Py.Topic) : Prop where
  name : t'.name = n
  socketType : t'.socketType = t.socketType
  address : t'.address = t.address
  address_nul : NUL ∉ t.address
  inputTypes : SameTypes t.inputTypes t'.inputType
  outputTypes : SameTypes t.outputTypes t'.outputType
  info : t.info = buildTopicInfo n t.socketType t.address t.inputTypes t.outputTypes

structure SameTopics (c : Directory) (p : Py.Directory) : Prop where
  guid_nul : NUL ∉ c.myGuid
  topic : ∀ name, Option.Rel (SameTopic name) c.topics.localTopics[name]? p.topics.localTopics[name]?

theorem toList_insert_empty (type : Str) : ((∅ : TypeSet).insert type).toList = [type] := by
  have hlen : ((∅ : TypeSet).insert type).toList.length = 1 := by
    rw [ExtTreeSet.length_toList, ExtTreeSet.size_insert]; simp
  obtain ⟨a, ha⟩ := List.length_eq_one_iff.1 hlen
  have hmem : type ∈ ((∅ : TypeSet).insert type).toList := ExtTreeSet.mem_toList.2 (by simp)
  rw [ha, List.mem_singleton] at hmem
  rw [ha, hmem]

theorem SameTypes.writeTypes {types : TypeSet} {type : Option Str} (h : SameTypes types type) :
    writeTypes types = Py.Directory.typeString type := by
  cases type with
  | none => rw [show types = ∅ from h]; rfl
  | some type =>
    obtain ⟨hne, hnul, rfl⟩ := h
    have he : ((∅ : TypeSet).insert type).isEmpty = false := by simp
    rw [Dispatch.writeTypes, if_neg (by simp [he]), toList_insert_empty, writeTypesLoop_eq (by simp [hne, hnul])]
    obtain ⟨x, xs, rfl⟩ := List.exists_cons_of_ne_nil hne
    simp [Py.Directory.typeString]

theorem SameTypes.nul {types : TypeSet} {type : Option Str} (h : SameTypes types type) :
    NUL ∉ Py.Directory.typeString type := by
  cases type with
  | none => decide
  | some type =>
    obtain ⟨x, xs, rfl⟩ := List.exists_cons_of_ne_nil h.1
    exact h.2.1

section
variable {n : Str} {t : DirectoryTopic} {t' : Py.Topic} (h : SameTopic n t t')
include h

theorem SameTopic.buildBroadcastString :
    Py.Directory.buildBroadcastString t' =
      if t.socketType ∈ Py.Directory.socketTypeStrings then .ok t.info
      else .error (.keyError t.socketType.fromType) := by
  rw [Py.Directory.buildBroadcastString, h.info, buildTopicInfo, h.name, h.socketType, h.address,
    h.inputTypes.writeTypes, h.outputTypes.writeTypes]

theorem SameTopic.info_nul (hn : NUL ∉ n) : NUL ∉ t.info := by
  rw [h.info, buildTopicInfo, h.inputTypes.writeTypes, h.outputTypes.writeTypes]
  have hs : NUL ∉ [' '] := by decide
  simp only [List.mem_append, not_or]
  exact ⟨⟨⟨⟨⟨⟨⟨⟨hn, hs⟩, t.socketType.token_fromType.nul⟩, hs⟩, h.address_nul⟩, hs⟩, h.inputTypes.nul⟩, hs⟩,
    h.outputTypes.nul⟩

theorem SameTopic.info_ne_nil : t.info ≠ [] := by
  rw [h.info, buildTopicInfo]
  simp

end

/-! ### What each of them sends -/

def announcement (guid payload : Str) : Str := DISPATCH ++ guid ++ [' ', DISCOVERY_AVAILABLE, ' '] ++ payload

/-- The search in `payload`, found behind `pre` in the receive buffer, makes both send announcements of
`payloads`, in this order. -/
structure BothAnnounce (c : Directory) (p : Py.Directory) (pre payload : Str) (payloads : List Str) : Prop where
  cpp : ∃ c', c.discoverySearch (pre ++ payload ++ [NUL]) pre.length = .ok c' ∧
    c'.sent.map Datagram.text = c.sent.map Datagram.text ++ payloads.map (announcement c.myGuid)
  py : (p.discoverySearch payload).2.callbacks =
    p.callbacks ++ payloads.map fun payload => .send (announcement p.myGuid payload)

def SameAnswers (c : Directory) (p : Py.Directory) (pre payload : Str) : Prop :=
  ∃ payloads, BothAnnounce c p pre payload payloads

/-- Only a directory whose topics are all called `*` has the same answer to the wildcard as to the
name. -/
structure Answerable (topics : ExtTreeMap Str DirectoryTopic) (names : List Str) : Prop where
  wildcard : ['*'] ∈ names → ∀ n ∈ topics, n = ['*']
  socketType : ∀ n ∈ names, ∀ t, topics[n]? = some t → t.socketType ∈ Py.Directory.socketTypeStrings

/-! ### `Directory::discoverySearch` -/

namespace Directory

theorem length_le_length_intercalate {names : List Str} (hn : ∀ n ∈ names, Token n) :
    names.length ≤ ([' '].intercalate names).length := by
  induction names with
  | nil => simp
  | cons n ns ih =>
    have hpos := List.length_pos_iff.2 (hn n (by simp)).ne_nil
    have hrest := ih fun m hm => hn m (by simp [hm])
    cases ns with
    | nil => simpa using Nat.succ_le_of_lt hpos
    | cons m ms =>
      rw [List.intercalate_cons_cons]
      simp only [List.length_append, List.length_cons, List.length_nil] at hrest ⊢
      omega

theorem discoverySearch_eq (d : Directory) {pre : Str} {names : List Str} (hn : ∀ n ∈ names, Token n)
    (hne : names ≠ []) (hl : pre.length + ([' '].intercalate names).length ≤ EVENT_BUFFER_SIZE) :
    d.discoverySearch (pre ++ [' '].intercalate names ++ [NUL]) pre.length =
      .ok { d with sent := d.sent ++ (names.flatMap (answers d.topics.localTopics)).map d.announce } := by
  have hclean : Clean names := fun n h x hx =>
    ⟨fun h0 => (hn n h).space (h0 ▸ hx), fun h0 => (hn n h).nul (h0 ▸ hx)⟩
  have htext := text_eq_intercalate ' ' hne
  have hlen := length_le_length_intercalate hn
  have hfilter : names.filter (fun n => decide (n ≠ [])) = names :=
    List.filter_eq_self.2 fun n h => by simpa using (hn n h).ne_nil
  have hfuel : names.length < EVENT_BUFFER_SIZE + 1 := by omega
  have hpos : pre.length + 0 = pre.length := rfl
  have hloop := discoverySearchLoop_text d pre hpos hclean hfuel (by rw [htext]; simp; omega)
  rw [htext, hfilter, foldl_searchReply_answers, ← List.append_assoc] at hloop
  exact hloop

end Directory

/-! ### `discovery_search` -/

namespace Py

theorem isspace_of_isprint {x : Char} (h : isprint x = true) (hx : x ≠ ' ') : isspace x = false := by
  simp only [isprint, Bool.and_eq_true, decide_eq_true_eq] at h
  simp only [isspace, hx, decide_false, Bool.false_or, Bool.and_eq_false_iff, decide_eq_false_iff_not,
    Char.le_def, UInt32.le_iff_toNat_le]
  right
  have h1 : ('\x0d' : Char).val.toNat = 13 := rfl
  have h2 : x.val.toNat = x.toNat := rfl
  omega

theorem splitOnP_token {n : Str} (h : Token n) : n.splitOnP isspace = [n] :=
  List.splitOnP_eq_singleton fun x hx => isspace_of_isprint (h.print x hx) fun h0 => h.space (h0 ▸ hx)

theorem words_intercalate {names : List Str} (hn : ∀ n ∈ names, Token n) (hne : names ≠ []) :
    words ([' '].intercalate names) = names := by
  have hsplit : ([' '].intercalate names).splitOnP isspace = names := by
    induction names with
    | nil => exact absurd rfl hne
    | cons n ns ih =>
      cases ns with
      | nil => simpa using splitOnP_token (hn n (by simp))
      | cons m ms =>
        have hrest := ih (fun k hk => hn k (by simp [hk])) (by simp)
        rw [List.intercalate_cons_cons, List.append_assoc, List.singleton_append,
          List.splitOnP_append_cons _ _ (by decide), hrest, splitOnP_token (hn n (by simp))]
        rfl
  rw [words, hsplit]
  exact List.filter_eq_self.2 fun n h => by simpa using (hn n h).ne_nil

namespace Directory
variable (p : Directory)

/-- The body of the loop of `discovery_search`. -/
def answer (acc : Option Exc × Directory) (name : Str) : Option Exc × Directory :=
  match acc.1, p.topics.localTopics[name]? with
  | none, some topic =>
    match buildBroadcastString topic with
    | .error e => (some e, acc.2)
    | .ok line => (none, acc.2.send "A".toList line)
  | _, _ => acc

theorem discoverySearch_eq (namestr : Str) :
    p.discoverySearch namestr = (words namestr).foldl p.answer (none, p) := rfl

variable {p} {q : Directory} {name : Str}

theorem answer_of_none (h : p.topics.localTopics[name]? = none) : p.answer (none, q) name = (none, q) := by
  simp [answer, h]

theorem answer_of_some {topic : Topic} (h : p.topics.localTopics[name]? = some topic) {line : Str}
    (hl : buildBroadcastString topic = .ok line) : p.answer (none, q) name = (none, q.send "A".toList line) := by
  simp [answer, h, hl]

theorem answer_of_error {topic : Topic} (h : p.topics.localTopics[name]? = some topic) {e : Exc}
    (hl : buildBroadcastString topic = .error e) : p.answer (none, q) name = (some e, q) := by
  simp [answer, h, hl]

theorem send_available_callbacks {line : Str} (hl : line ≠ []) :
    (q.send "A".toList line).callbacks = q.callbacks ++ [.send (announcement q.myGuid line)] := by
  have hline : DISPATCH ++ q.myGuid ++ [' '] ++ "A".toList ++ ' ' :: line = announcement q.myGuid line := by
    rw [announcement, show "A".toList = [DISCOVERY_AVAILABLE] from rfl]
    simp only [List.append_assoc, List.cons_append, List.nil_append]
  rw [← hline, send, if_neg hl]
  rfl

theorem foldl_answer_of_error (e : Exc) (names : List Str) : names.foldl p.answer (some e, q) = (some e, q) := by
  induction names with
  | nil => rfl
  | cons n ns ih =>
    have hn : p.answer (some e, q) n = (some e, q) := by simp [answer]
    rw [List.foldl_cons, hn, ih]

end Directory
end Py

/-! ### Comparing the two -/

section
variable {c : Directory} {p : Py.Directory} (h : SameTopics c p) {name : Str} {names : List Str}
include h

theorem SameTopics.of_none (hc : c.topics.localTopics[name]? = none) : p.topics.localTopics[name]? = none := by
  have hrel := h.topic name
  rw [hc] at hrel
  cases hp : p.topics.localTopics[name]? with
  | none => rfl
  | some t' => rw [hp] at hrel; cases hrel

theorem SameTopics.of_some {t : DirectoryTopic} (hc : c.topics.localTopics[name]? = some t) :
    ∃ t', p.topics.localTopics[name]? = some t' ∧ SameTopic name t t' := by
  have hrel := h.topic name
  rw [hc] at hrel
  cases hp : p.topics.localTopics[name]? with
  | none => rw [hp] at hrel; cases hrel
  | some t' =>
    rw [hp] at hrel
    cases hrel with
    | some hrel => exact ⟨t', rfl, hrel⟩

/-- Python answers each name it holds, in order, if it can name their socket types. -/
theorem SameTopics.foldl_answer
    (hs : ∀ n ∈ names, ∀ t, c.topics.localTopics[n]? = some t → t.socketType ∈ Py.Directory.socketTypeStrings)
    {q : Py.Directory} (hq : q.myGuid = p.myGuid) :
    (names.foldl p.answer (none, q)).2.callbacks =
      q.callbacks ++ (names.filterMap (c.topics.localTopics[·]?)).map
        fun t => .send (announcement p.myGuid t.info) := by
  induction names generalizing q with
  | nil => simp
  | cons n ns ih =>
    have hrest := fun m (hm : m ∈ ns) => hs m (List.mem_cons_of_mem _ hm)
    cases hc : c.topics.localTopics[n]? with
    | none => rw [List.foldl_cons, Py.Directory.answer_of_none (h.of_none hc), ih hrest hq]; simp [hc]
    | some t =>
      obtain ⟨t', hp, hsame⟩ := h.of_some hc
      have hline := hsame.buildBroadcastString
      rw [if_pos (hs n (by simp) t hc)] at hline
      have hq' : (q.send "A".toList t.info).myGuid = p.myGuid := hq
      rw [List.foldl_cons, Py.Directory.answer_of_some hp hline, ih hrest hq',
        Py.Directory.send_available_callbacks hsame.info_ne_nil, hq]
      simp [hc]

/-- Otherwise the exception takes the place of at least one answer. -/
theorem SameTopics.length_foldl_answer_lt {n : Str} (hn : n ∈ names) {t : DirectoryTopic}
    (hc : c.topics.localTopics[n]? = some t) (hs : t.socketType ∉ Py.Directory.socketTypeStrings)
    (q : Py.Directory) :
    (names.foldl p.answer (none, q)).2.callbacks.length <
      q.callbacks.length + (names.filterMap (c.topics.localTopics[·]?)).length := by
  induction names generalizing q with
  | nil => simp at hn
  | cons m ms ih =>
    cases hm : c.topics.localTopics[m]? with
    | none =>
      have hne : n ∈ ms := (List.mem_cons.1 hn).resolve_left fun h0 => by rw [← h0, hc] at hm; cases hm
      rw [List.foldl_cons, Py.Directory.answer_of_none (h.of_none hm)]
      simpa [hm] using ih hne q
    | some u =>
      obtain ⟨u', hp, hsame⟩ := h.of_some hm
      have hline := hsame.buildBroadcastString
      by_cases hu : u.socketType ∈ Py.Directory.socketTypeStrings
      · have hne : n ∈ ms := (List.mem_cons.1 hn).resolve_left fun h0 => by
          rw [← h0, hc] at hm
          exact hs (Option.some.inj hm ▸ hu)
        rw [if_pos hu] at hline
        have hlt := ih hne (q.send "A".toList u.info)
        rw [List.foldl_cons, Py.Directory.answer_of_some hp hline]
        rw [Py.Directory.send_available_callbacks hsame.info_ne_nil, List.length_append,
          List.length_singleton] at hlt
        simp only [List.filterMap_cons, hm, List.length_cons]
        omega
      · rw [if_neg hu] at hline
        rw [List.foldl_cons, Py.Directory.answer_of_error hp hline, Py.Directory.foldl_answer_of_error]
        simp [hm]

end

section
variable {topics : ExtTreeMap Str DirectoryTopic}

variable (topics) in
theorem length_le_answers (name : Str) :
    topics[name]?.toList.length ≤ (answers topics name).length := by
  unfold answers
  split
  case isTrue h0 =>
    cases ht : topics[name]? with
    | none => simp
    | some t =>
      have hmem := ExtTreeMap.mem_toList_iff_getElem?_eq_some.2 ht
      simpa using Nat.succ_le_of_lt (List.length_pos_of_mem hmem)
  case isFalse => exact Nat.le_refl _

theorem length_lt_answers {n : Str} (hn : n ∈ topics) (hne : n ≠ ['*']) :
    topics[['*']]?.toList.length < (answers topics ['*']).length := by
  obtain ⟨t, ht⟩ := Option.isSome_iff_exists.1 (ExtTreeMap.mem_iff_isSome_getElem?.1 hn)
  have hmem := ExtTreeMap.mem_toList_iff_getElem?_eq_some.2 ht
  rw [answers, if_pos rfl, List.length_map]
  cases hs : topics[['*']]? with
  | none => exact List.length_pos_of_mem hmem
  | some u =>
    have hmem' := ExtTreeMap.mem_toList_iff_getElem?_eq_some.2 hs
    rcases hl : topics.toList with _ | ⟨a, _ | ⟨b, l⟩⟩
    · rw [hl] at hmem; cases hmem
    · rw [hl, List.mem_singleton] at hmem hmem'
      exact absurd (congrArg Prod.fst (hmem.trans hmem'.symm)) hne
    · simp

theorem answers_of_only (h : ∀ n ∈ topics, n = ['*']) : answers topics ['*'] = topics[['*']]?.toList := by
  have hkey : ∀ e ∈ topics.toList, e.1 = ['*'] := fun e he => h e.1 <| ExtTreeMap.mem_iff_isSome_getElem?.2 <|
    Option.isSome_iff_exists.2 ⟨e.2, ExtTreeMap.mem_toList_iff_getElem?_eq_some.1 he⟩
  have hnodup : (topics.toList.map (·.1)).Nodup := by
    rw [ExtTreeMap.map_fst_toList_eq_keys]
    exact ExtTreeMap.nodup_keys
  rw [answers, if_pos rfl]
  rcases hl : topics.toList with _ | ⟨e, _ | ⟨e', l⟩⟩
  · rw [ExtTreeMap.toList_eq_nil_iff.1 hl]
    simp
  · have hmem : e ∈ topics.toList := hl ▸ List.mem_singleton.2 rfl
    have hget : topics[e.1]? = some e.2 := ExtTreeMap.mem_toList_iff_getElem?_eq_some.1 hmem
    rw [← hkey e hmem, hget]
    rfl
  · rw [hl] at hkey hnodup
    have heq : e.1 = e'.1 := (hkey e (by simp)).trans (hkey e' (by simp)).symm
    simp [heq] at hnodup

variable (topics) in
theorem length_held_le_answers (names : List Str) :
    (names.flatMap (topics[·]?.toList)).length ≤ (names.flatMap (answers topics)).length := by
  induction names with
  | nil => simp
  | cons n ns ih =>
    have hn := length_le_answers topics n
    simp only [List.flatMap_cons, List.length_append]
    omega

theorem length_held_lt_answers {n : Str} {names : List Str} (hs : ['*'] ∈ names) (hn : n ∈ topics)
    (hne : n ≠ ['*']) : (names.flatMap (topics[·]?.toList)).length < (names.flatMap (answers topics)).length := by
  obtain ⟨l, r, rfl⟩ := List.append_of_mem hs
  have hl := length_held_le_answers topics l
  have hr := length_held_le_answers topics r
  have hlt := length_lt_answers hn hne
  simp only [List.flatMap_append, List.flatMap_cons, List.length_append]
  omega

theorem Answerable.flatMap_answers {names : List Str} (h : Answerable topics names) :
    names.flatMap (answers topics) = names.filterMap (topics[·]?) := by
  rw [List.filterMap_eq_flatMap_toList]
  refine List.flatMap_congr fun n hn => ?_
  by_cases h0 : n = ['*']
  · subst h0
    exact answers_of_only (h.wildcard hn)
  · rw [answers, if_neg h0]

end

section
variable {c : Directory} {p : Py.Directory} (h : SameTopics c p) {pre : Str} {names : List Str}
  (hn : ∀ n ∈ names, Token n) (hne : names ≠ [])
  (hl : pre.length + ([' '].intercalate names).length ≤ EVENT_BUFFER_SIZE)
include h hn hne hl

theorem Answerable.bothAnnounce (ha : Answerable c.topics.localTopics names) :
    BothAnnounce c p pre ([' '].intercalate names)
      (names.filterMap fun n => c.topics.localTopics[n]?.map (·.info)) := by
  have hmap : (names.filterMap fun n => c.topics.localTopics[n]?.map (·.info)) =
      (names.filterMap (c.topics.localTopics[·]?)).map (·.info) := by rw [List.map_filterMap]
  constructor
  · refine ⟨_, c.discoverySearch_eq hn hne hl, ?_⟩
    rw [hmap, ha.flatMap_answers, List.map_append, List.map_map, List.map_map]
    congr 1
    refine List.map_congr_left fun t ht => ?_
    obtain ⟨n, hmem, ht⟩ := List.mem_filterMap.1 ht
    obtain ⟨t', -, hsame⟩ := h.of_some ht
    simp only [Function.comp_apply, Directory.announce, Directory.message]
    rw [cString_eq_self h.guid_nul, cString_eq_self (hsame.info_nul (hn n hmem).nul)]
    simp [announcement, hsame.info_ne_nil]
  · rw [p.discoverySearch_eq, Py.words_intercalate hn hne, h.foldl_answer ha.socketType rfl, hmap, List.map_map]
    rfl

/-- The answers are as many as the names held; a wildcard adds some on one side, an exception takes some
away on the other. -/
theorem SameAnswers.answerable (hs : SameAnswers c p pre ([' '].intercalate names)) :
    Answerable c.topics.localTopics names := by
  obtain ⟨payloads, ⟨c', hc', hcpp⟩, hpy⟩ := hs
  rw [c.discoverySearch_eq hn hne hl] at hc'
  cases hc'
  rw [p.discoverySearch_eq, Py.words_intercalate hn hne] at hpy
  have hcpp' := congrArg List.length hcpp
  have hpy' := congrArg List.length hpy
  simp only [List.map_append, List.length_append, List.length_map] at hcpp' hpy'
  have hle := length_held_le_answers c.topics.localTopics names
  have hheld := List.filterMap_eq_flatMap_toList (c.topics.localTopics[·]?) names
  have htype : ∀ n ∈ names, ∀ t, c.topics.localTopics[n]? = some t →
      t.socketType ∈ Py.Directory.socketTypeStrings := by
    intro n hmem t ht
    by_contra hnot
    have hlt := h.length_foldl_answer_lt hmem ht hnot p
    rw [hheld] at hlt
    omega
  refine ⟨fun hstar n hmem => ?_, htype⟩
  by_contra hnot
  have hlt := length_held_lt_answers hstar hmem hnot
  rw [h.foldl_answer htype rfl, hheld] at hpy'
  simp only [List.length_append, List.length_map] at hpy'
  omega

theorem sameAnswers_iff :
    (SameAnswers c p pre ([' '].intercalate names) ↔ Answerable c.topics.localTopics names) ∧
      (Answerable c.topics.localTopics names → BothAnnounce c p pre ([' '].intercalate names)
        (names.filterMap fun n => c.topics.localTopics[n]?.map (·.info))) := by
  have hboth := Answerable.bothAnnounce h hn hne hl
  exact ⟨⟨SameAnswers.answerable h hn hne hl, fun ha => ⟨_, hboth ha⟩⟩, hboth⟩

end

/-! ### One topic -/

def oneCpp : Directory :=
  ((Directory.new "n1".toList ⟨0x0a000000#32, 0xff000000#32⟩).add 0 "t".toList .pub "tcp://10.0.0.1:4000".toList
    ∅ ((∅ : TypeSet).insert "7".toList) "n1".toList).2

def onePy : Py.Directory :=
  ((Py.Directory.new "n2".toList ⟨0x0a000000#32, 0xff000000#32⟩).add
    ⟨"t".toList, .pub, "tcp://10.0.0.1:4000".toList, none, some "7".toList, "n2".toList, 0⟩).2

theorem sameTopics_one : SameTopics oneCpp onePy := by
  have hcpp : oneCpp.topics.localTopics = (∅ : ExtTreeMap Str DirectoryTopic).insert "t".toList
    (Directory.topicAt 0 "t".toList .pub "tcp://10.0.0.1:4000".toList ∅ ((∅ : TypeSet).insert "7".toList)
      "n1".toList) := rfl
  have hpy : onePy.topics.localTopics = (∅ : ExtTreeMap Str Py.Topic).insert "t".toList
    ⟨"t".toList, .pub, "tcp://10.0.0.1:4000".toList, none, some "7".toList, "n2".toList, 0⟩ := rfl
  refine ⟨by decide, fun n => ?_⟩
  rw [hcpp, hpy, ExtTreeMap.getElem?_insert, ExtTreeMap.getElem?_insert]
  by_cases hn : "t".toList = n
  · subst hn
    simp only [compare_self, if_true]
    exact .some ⟨rfl, rfl, rfl, by decide, rfl, ⟨by decide, by decide, rfl⟩, rfl⟩
  · have hcmp : compare "t".toList n ≠ .eq := fun h0 => hn (LawfulEqCmp.eq_of_compare h0)
    simp only [hcmp, if_false]
    simp

theorem sameAnswers_one :
    SameAnswers oneCpp onePy "DISPATCH n3 S ".toList ([' '].intercalate ["u".toList, "t".toList]) ↔
      Answerable oneCpp.topics.localTopics ["u".toList, "t".toList] :=
  (sameAnswers_iff sameTopics_one (by decide) (by decide) (by decide)).1

/-- Only the C++ directory answers the wildcard. -/
theorem wildcard_unanswered :
    ∃ (c : Directory) (p : Py.Directory) (pre : Str) (names : List Str), SameTopics c p ∧
      (∀ n ∈ names, Token n) ∧ names ≠ [] ∧
      pre.length + ([' '].intercalate names).length ≤ EVENT_BUFFER_SIZE ∧
      ¬ SameAnswers c p pre ([' '].intercalate names) := by
  have hn : ∀ n ∈ [['*']], Token n := by decide
  refine ⟨oneCpp, onePy, "DISPATCH n3 S ".toList, [['*']], sameTopics_one, hn, by decide, by decide, fun hs => ?_⟩
  have ha := SameAnswers.answerable sameTopics_one hn (by decide) (by decide) hs
  have ht := ha.wildcard (by decide) "t".toList (by decide)
  exact absurd ht (by decide)

end A17.Dispatch
