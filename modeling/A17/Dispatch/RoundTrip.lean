import A17.Dispatch.Wire

/-!
# Announcements survive the wire

What `send` writes with command `A` and the text of `buildTopicInfo`, another directory's `event`
reads back as exactly one `DirectoryTopicStore::add` of the same topic. `decode_message` is the half
about the datagram, `parseTypes_writeTypes` the half about the type sets.
-/

open Std

namespace A17.Dispatch
open CString

/-! ### Type sets -/

/-- A set of types that can be written: tokens without the separator, and not the one set that reads
as no types at all. -/
structure Writable (types : TypeSet) : Prop where
  token : ∀ t ∈ types, Token t
  sep : ∀ t ∈ types, SEP ∉ t
  ne_noTypes : types ≠ (∅ : TypeSet).insert NO_TYPES

theorem writable_empty : Writable ∅ :=
  ⟨fun t ht => absurd ht (by simp), fun t ht => absurd ht (by simp), by decide⟩

theorem flatMap_cString_singleton {s : Str} (h : NUL ∉ s) : (s.flatMap fun id => cString [id]) = s := by
  induction s with
  | nil => rfl
  | cons c s ih =>
    simp only [List.mem_cons, not_or] at h
    rw [List.flatMap_cons, ih h.2, cString_eq_self (by simpa using h.1)]
    rfl

/-- The scratch buffer's first character tells whether a type was written before. -/
theorem writeTypesLoop_eq {types : List Str} (h : ∀ t ∈ types, t ≠ [] ∧ NUL ∉ t) (buf : Char) :
    writeTypesLoop types buf = (if types ≠ [] ∧ buf ≠ NUL then [SEP] else []) ++ [SEP].intercalate types := by
  induction types generalizing buf with
  | nil => simp [writeTypesLoop]
  | cons t ts ih =>
    obtain ⟨hne, hnul⟩ := h t (by simp)
    have hlast : t.getLast?.getD buf ≠ NUL := by
      rw [List.getLast?_eq_some_getLast hne, Option.getD_some]
      exact fun h0 => hnul (h0 ▸ List.getLast_mem hne)
    rw [writeTypesLoop, ih (fun u hu => h u (by simp [hu])), flatMap_cString_singleton hnul]
    cases ts with
    | nil => simp
    | cons u us => simp [hlast, List.intercalate_cons_cons]

theorem writeTypes_eq {types : TypeSet} (h : ∀ t ∈ types, Token t) (hne : types ≠ ∅) :
    writeTypes types = [SEP].intercalate types.toList := by
  have he : types.isEmpty = false := by simpa using hne
  rw [writeTypes, if_neg (by simp [he]), writeTypesLoop_eq]
  · simp
  · intro t ht
    have := h t (ExtTreeSet.mem_toList.1 ht)
    exact ⟨this.ne_nil, this.nul⟩

theorem foldl_insert_toList (types : TypeSet) :
    types.toList.foldl (fun acc raw => acc.insert raw) (∅ : TypeSet) = types := by
  rw [← ExtTreeSet.insertMany_list_eq_foldl]
  refine ExtTreeSet.ext_mem fun t => ?_
  simp [ExtTreeSet.mem_insertMany_list]

theorem parseTypes_writeTypes {types : TypeSet} (h : Writable types) : parseTypes (writeTypes types) = types := by
  by_cases hne : types = ∅
  · subst hne; rfl
  have hsplit : (writeTypes types).splitOn SEP = types.toList := by
    rw [writeTypes_eq h.token hne]
    exact List.splitOn_intercalate SEP (fun t ht => h.sep t (ExtTreeSet.mem_toList.1 ht))
      (by simpa using hne)
  have htext : ¬ (writeTypes types = [] ∨ writeTypes types = NO_TYPES) := by
    rintro (h0 | h0) <;> rw [h0] at hsplit
    · have : [] ∈ types := ExtTreeSet.mem_toList.1 (hsplit ▸ by simp)
      exact (h.token _ this).ne_nil rfl
    · refine h.ne_noTypes (ExtTreeSet.ext_mem fun t => ?_)
      have hs : NO_TYPES.splitOn SEP = [NO_TYPES] := by decide
      rw [← ExtTreeSet.mem_toList, ← hsplit, hs, ExtTreeSet.mem_insert, Std.LawfulEqCmp.compare_eq_iff_eq]
      simp [eq_comm]
  rw [parseTypes, if_neg htext, hsplit, foldl_insert_toList]

theorem token_writeTypes {types : TypeSet} (h : Writable types) : Token (writeTypes types) := by
  by_cases hne : types = ∅
  · subst hne; constructor <;> decide
  have hmem : ∀ c ∈ writeTypes types, c = SEP ∨ ∃ t ∈ types, c ∈ t := by
    intro c hc
    rw [writeTypes_eq h.token hne] at hc
    rcases mem_intercalate hc with hc | ⟨t, ht, hc⟩
    · exact .inl hc
    · exact .inr ⟨t, ExtTreeSet.mem_toList.1 ht, hc⟩
  refine ⟨fun h0 => ?_, fun c hc => ?_, fun hc => ?_⟩
  · have := parseTypes_writeTypes h
    rw [h0] at this
    exact hne (this.symm.trans rfl)
  · rcases hmem c hc with rfl | ⟨t, ht, hc⟩
    · rfl
    · exact (h.token t ht).print c hc
  · rcases hmem _ hc with h0 | ⟨t, ht, hc⟩
    · exact absurd h0 (by decide)
    · exact (h.token t ht).space hc

/-! ### Datagrams -/

structure WellFormed (name address : Str) (inputTypes outputTypes : TypeSet) : Prop where
  name : Token name
  address : Token address
  inputTypes : Writable inputTypes
  outputTypes : Writable outputTypes

theorem splitOn_token_cons {t : Str} (h : ' ' ∉ t) (s : Str) : (t ++ ' ' :: s).splitOn ' ' = t :: s.splitOn ' ' :=
  List.splitOn_append_cons_self_of_not_mem h s

theorem buildTopicInfo_splitOn {name address : Str} {inputTypes outputTypes : TypeSet} (socketType : SocketType)
    (h : WellFormed name address inputTypes outputTypes) :
    (buildTopicInfo name socketType address inputTypes outputTypes).splitOn ' ' =
      [name, socketType.fromType, address, writeTypes inputTypes, writeTypes outputTypes] := by
  simp only [buildTopicInfo, List.append_assoc, List.cons_append, List.nil_append]
  rw [splitOn_token_cons h.name.space, splitOn_token_cons socketType.token_fromType.space,
    splitOn_token_cons h.address.space, splitOn_token_cons (token_writeTypes h.inputTypes).space,
    List.splitOn_eq_singleton (token_writeTypes h.outputTypes).space]

theorem buildTopicInfo_print {name address : Str} {inputTypes outputTypes : TypeSet} (socketType : SocketType)
    (h : WellFormed name address inputTypes outputTypes) :
    ∀ c ∈ buildTopicInfo name socketType address inputTypes outputTypes, isprint c = true := by
  intro c hc
  simp only [buildTopicInfo, List.mem_append, List.mem_singleton] at hc
  rcases hc with ((((((((hc | rfl) | hc) | rfl) | hc) | rfl) | hc) | rfl) | hc)
  · exact h.name.print c hc
  · rfl
  · exact socketType.token_fromType.print c hc
  · rfl
  · exact h.address.print c hc
  · rfl
  · exact (token_writeTypes h.inputTypes).print c hc
  · rfl
  · exact (token_writeTypes h.outputTypes).print c hc

namespace Directory

section
variable {guid args : Str} {c : Char} (hg : ∀ x ∈ guid, isprint x = true) (hgs : ' ' ∉ guid)
  (hc : isprint c = true) (hcs : c ≠ ' ') (ha : ∀ x ∈ args, isprint x = true)
include hg ha

theorem message_eq : message guid c args =
    DISPATCH ++ (guid ++ ' ' :: ([c] ++ if args = [] then [] else ' ' :: args)) := by
  rw [message, cString_eq_self (NUL_notMem_of_isprint hg), cString_eq_self (NUL_notMem_of_isprint ha)]
  by_cases h0 : args = [] <;> simp [h0]

theorem length_message : (message guid c args).length =
    DISPATCH.length + guid.length + 2 + if args = [] then 0 else args.length + 1 := by
  rw [message_eq hg ha]
  split <;> simp <;> omega

include hgs hcs

theorem message_tokens : ((message guid c args).drop DISPATCH.length).splitOn ' ' =
    guid :: [c] :: if args = [] then [] else args.splitOn ' ' := by
  have hcs' : ' ' ∉ [c] := by simpa using Ne.symm hcs
  rw [message_eq hg ha, List.drop_left, splitOn_token_cons hgs]
  by_cases h0 : args = []
  · simp [h0, List.splitOn_eq_singleton hcs']
  · simp only [h0, if_false]; rw [splitOn_token_cons hcs']

theorem sender_message : Event.sender (message guid c args) = guid := by
  rw [Event.sender, message_tokens hg hgs hcs ha]; rfl

include hc

theorem decode_message {myGuid : Str} (hne : guid ≠ cString myGuid) : Event.decode myGuid (message guid c args) =
    Event.ofCommand guid ([c] :: if args = [] then [] else args.splitOn ' ') := by
  have hprint : (message guid c args).all isprint = true := by
    have hD : DISPATCH.all isprint = true := by decide
    have hspace : isprint ' ' = true := rfl
    rw [message_eq hg ha]
    by_cases h0 : args = [] <;>
      simp [hD, h0, hc, hspace, List.all_eq_true.2 hg, List.all_eq_true.2 ha, -List.all_eq_true]
  have hpre : DISPATCH <+: message guid c args := by rw [message_eq hg ha]; exact List.prefix_append ..
  have hsender := sender_message hg hgs hcs ha
  rw [Event.decode, if_pos ⟨hprint, hpre, by rwa [hsender]⟩, hsender, Event.command,
    message_tokens hg hgs hcs ha]
  rfl

end

theorem decode_announcement {guid myGuid name address : Str} {inputTypes outputTypes : TypeSet}
    (socketType : SocketType) (hg : Token guid) (hne : guid ≠ cString myGuid)
    (h : WellFormed name address inputTypes outputTypes) :
    Event.decode myGuid
      (message guid DISCOVERY_AVAILABLE (buildTopicInfo name socketType address inputTypes outputTypes)) =
      .available guid name socketType.fromType address (writeTypes inputTypes) (writeTypes outputTypes) := by
  have hinfo : buildTopicInfo name socketType address inputTypes outputTypes ≠ [] := by
    simp [buildTopicInfo]
  rw [decode_message hg.print hg.space rfl (by decide) (buildTopicInfo_print socketType h) hne, if_neg hinfo,
    buildTopicInfo_splitOn socketType h]
  simp [Event.ofCommand, Event.ofAvailable, h.name.ne_nil, h.address.ne_nil,
    socketType.token_fromType.ne_nil, (token_writeTypes h.outputTypes).ne_nil]

theorem add_calls (d : Directory) (now : Int) (name : Str) (socketType : SocketType) (address : Str)
    (inputTypes outputTypes : TypeSet) (guid : Str) :
    (d.add now name socketType address inputTypes outputTypes guid).2.calls =
      d.calls ++ [.add (topicAt now name socketType address inputTypes outputTypes guid)] := by
  unfold add
  dsimp only
  split <;> rfl

theorem handle_announcement (d : Directory) (now : Int) {guid name address : Str} {inputTypes outputTypes : TypeSet}
    (socketType : SocketType) (h : WellFormed name address inputTypes outputTypes)
    (hnet : d.ownAddress.onNetwork (Address.parse address).ip = true) :
    d.handle now (.available guid name socketType.fromType address (writeTypes inputTypes)
      (writeTypes outputTypes)) =
      (d.add now name socketType address inputTypes outputTypes guid).2 := by
  rw [handle, available, if_pos hnet, SocketType.fromName_fromType, parseTypes_writeTypes h.inputTypes,
    parseTypes_writeTypes h.outputTypes]

/-- An announcement sent by one directory makes another add exactly that topic, once. -/
theorem announcement_round_trip (a b : Directory) (now : Int) (name address : Str) (socketType : SocketType)
    (inputTypes outputTypes : TypeSet) (hname : Token name) (haddress : Token address)
    (hin : ∀ t ∈ inputTypes, Token t ∧ SEP ∉ t) (hin' : inputTypes ≠ (∅ : TypeSet).insert NO_TYPES)
    (hout : ∀ t ∈ outputTypes, Token t ∧ SEP ∉ t) (hout' : outputTypes ≠ (∅ : TypeSet).insert NO_TYPES)
    (hnet : b.ownAddress.onNetwork (Address.parse address).ip = true)
    (hguid : Token a.myGuid) (hne : a.myGuid ≠ cString b.myGuid)
    (hlen : (message a.myGuid DISCOVERY_AVAILABLE
      (buildTopicInfo name socketType address inputTypes outputTypes)).length < EVENT_BUFFER_SIZE) :
    ∃ datagram b', (a.send DISCOVERY_AVAILABLE
        (buildTopicInfo name socketType address inputTypes outputTypes)).sent = a.sent ++ [datagram] ∧
      b.event now datagram.text = .ok b' ∧
      b'.calls = b.calls ++ [.add {
        name, timestamp := now, socketType, address, inputTypes, outputTypes, guid := a.myGuid,
        info := buildTopicInfo name socketType address inputTypes outputTypes }] := by
  have h : WellFormed name address inputTypes outputTypes :=
    ⟨hname, haddress, ⟨fun t ht => (hin t ht).1, fun t ht => (hin t ht).2, hin'⟩,
      ⟨fun t ht => (hout t ht).1, fun t ht => (hout t ht).2, hout'⟩⟩
  refine ⟨_, _, rfl, b.event_eq now hlen.le, ?_⟩
  rw [decode_announcement socketType hguid hne h, b.handle_announcement now socketType h hnet, add_calls]
  rfl

def onTen (guid : String) : Directory := new guid.toList ⟨0x0a000000#32, 0xff000000#32⟩

theorem announcement_round_trip_two_types :
    let types : TypeSet := ((∅ : TypeSet).insert "pose".toList).insert "twist".toList
    ∃ datagram b',
      ((onTen "n1").send DISCOVERY_AVAILABLE
        (buildTopicInfo "ODOM".toList .pub "tcp://10.0.0.1:4000".toList ∅ types)).sent = [datagram] ∧
      (onTen "n2").event 17 datagram.text = .ok b' ∧
      b'.calls = [.add {
        name := "ODOM".toList, timestamp := 17, socketType := .pub, address := "tcp://10.0.0.1:4000".toList,
        inputTypes := ∅, outputTypes := types, guid := "n1".toList,
        info := "ODOM PUB tcp://10.0.0.1:4000 . pose|twist".toList }] := by
  intro types
  exact announcement_round_trip (onTen "n1") (onTen "n2") 17 "ODOM".toList "tcp://10.0.0.1:4000".toList .pub ∅ types
    (by decide) (by decide) (fun t ht => absurd ht (by simp)) (by decide)
    (fun t ht => (by decide : ∀ t ∈ types.toList, Token t ∧ SEP ∉ t) t (ExtTreeSet.mem_toList.2 ht)) (by decide)
    (by decide) (by decide) (by decide) (by decide)

end Directory
end A17.Dispatch
