import A17.Dispatch.Runs
import A17.Dispatch.AddressText

/-!
# The C++ and the Python directory agree

Both read the same well-formed datagrams, one by an in-place tokeniser and one by `split`, and apply
the same network test to the same part of the address (`parse_ip`, `fromString_ip`). `Agree` relates
their topic maps entry by entry; every datagram keeps it.
-/

open Std

namespace A17.Dispatch
open CString

/-! ### Addresses -/

def dotted (a b c d : Nat) : Str := ['.'].intercalate ([a, b, c, d].map (Nat.toDigits 10))

/-- `proto://a.b.c.d:port` with decimal octets and a decimal port of at most 65535. -/
structure IsAddress (address proto : Str) (a b c d : Nat) (port : Str) : Prop where
  eq : address = proto ++ ("://".toList ++ (dotted a b c d ++ ':' :: port))
  proto : findStr "://".toList proto = none
  octets : a < 256 ∧ b < 256 ∧ c < 256 ∧ d < 256
  port_ne_nil : port ≠ []
  port_digits : ∀ x ∈ port, isdigit x = true
  port_le : port.foldl (fun n x => n * 10 + (x.toNat - '0'.toNat)) 0 ≤ 65535

theorem octet {n : Nat} (h : n < 256) : cNumber (Nat.toDigits 10 n) = some n ∧
    ∀ x ∈ Nat.toDigits 10 n, isdigit x = true := by
  have hall : ∀ n : Fin 256, cNumber (Nat.toDigits 10 n) = some (n : Nat) ∧
      ∀ x ∈ Nat.toDigits 10 n, isdigit x = true := by decide +kernel
  exact hall ⟨n, h⟩

section
variable {address proto port : Str} {a b c d : Nat}

theorem octets_mem (ho : a < 256 ∧ b < 256 ∧ c < 256 ∧ d < 256) {t : Str}
    (ht : t ∈ [a, b, c, d].map (Nat.toDigits 10)) : ∀ x ∈ t, isdigit x = true := by
  obtain ⟨n, hn, rfl⟩ := List.mem_map.1 ht
  refine (octet ?_).2
  simp only [List.mem_cons, List.not_mem_nil, or_false] at hn
  omega

theorem mem_dotted {x : Char} (ho : a < 256 ∧ b < 256 ∧ c < 256 ∧ d < 256) (hx : x ∈ dotted a b c d) :
    x = '.' ∨ isdigit x = true := by
  rcases mem_intercalate hx with h | ⟨t, ht, hx⟩
  · exact .inl h
  · exact .inr (octets_mem ho ht x hx)

theorem colon_notMem_dotted (ho : a < 256 ∧ b < 256 ∧ c < 256 ∧ d < 256) : ':' ∉ dotted a b c d := by
  intro hx
  rcases mem_dotted ho hx with h | h <;> exact absurd h (by decide)

theorem inetAton_dotted (ho : a < 256 ∧ b < 256 ∧ c < 256 ∧ d < 256) :
    inetAton (dotted a b c d) = some (BitVec.ofNat 32 (a * 2 ^ 24 + b * 2 ^ 16 + c * 2 ^ 8 + d)) := by
  have htake : (dotted a b c d).takeWhile (fun x => !isspace x) = dotted a b c d := by
    refine List.takeWhile_eq_self_iff.2 fun x hx => ?_
    rcases mem_dotted ho hx with rfl | h
    · rfl
    · rw [isspace_of_isdigit h]; rfl
  have hsplit : (dotted a b c d).splitOn '.' = [a, b, c, d].map (Nat.toDigits 10) := by
    refine List.splitOn_intercalate '.' (fun t ht hx => ?_) (by simp)
    exact absurd (octets_mem ho ht '.' hx) (by decide)
  obtain ⟨ha, hb, hc, hd⟩ := ho
  rw [inetAton, htake, hsplit]
  simp [(octet ha).1, (octet hb).1, (octet hc).1, (octet hd).1, ha, hb, hc, hd]

theorem IsAddress.parse_ip (h : IsAddress address proto a b c d port) :
    (Address.parse address).ip = dotted a b c d := by
  rw [h.eq, parse_port h.proto (colon_notMem_dotted h.octets)]

theorem IsAddress.fromString_ip (h : IsAddress address proto a b c d port) :
    ∃ s, Py.SocketAddress.fromString address = .ok s ∧ s.ip = dotted a b c d := by
  have hcolon : ':' ∉ port := fun hx => absurd (h.port_digits _ hx) (by decide)
  rw [h.eq, Py.SocketAddress.fromString, findStr_append_sep h.proto]
  dsimp only
  rw [drop_sep, splitMax_colon (colon_notMem_dotted h.octets) hcolon]
  dsimp only
  rw [toInt_digits h.port_ne_nil h.port_digits]
  exact ⟨_, rfl, rfl⟩

theorem IsAddress.onNetwork (h : IsAddress address proto a b c d port) (own : OwnAddress) :
    Py.onNetwork own (dotted a b c d) = .ok (own.onNetwork (Address.parse address).ip) := by
  rw [h.parse_ip, Py.onNetwork, OwnAddress.onNetwork, inetAddr, inetAton_dotted h.octets]
  rfl

end

/-! ### Datagrams -/

/-- A well-formed datagram that changes topics. -/
inductive Command where
  | exit (guid : Str)
  | remove (guid name : Str)
  | available (guid name : Str) (type : SocketType) (address ins outs : Str)

namespace Command

def guid : Command → Str
  | .exit guid | .remove guid _ | .available guid .. => guid

def args : Command → List Str
  | .exit _ => ["X".toList]
  | .remove _ name => ["R".toList, name]
  | .available _ name type address ins outs => ["A".toList, name, type.fromType, address, ins, outs]

def text (cmd : Command) : Str := [' '].intercalate ("DISPATCH".toList :: cmd.guid :: cmd.args)

def AddressOk : Command → Prop
  | .available _ _ type address _ _ => type ∈ Py.Directory.socketTypeStrings ∧
    ∃ proto a b c d port, IsAddress address proto a b c d port
  | _ => True

structure Ok (cmd : Command) : Prop where
  guid : Token cmd.guid
  args : ∀ t ∈ cmd.args, Token t
  address : cmd.AddressOk
  length : cmd.text.length ≤ EVENT_BUFFER_SIZE

variable {cmd : Command}

theorem Ok.space (h : cmd.Ok) : ∀ t ∈ "DISPATCH".toList :: cmd.guid :: cmd.args, ' ' ∉ t := by
  intro t ht
  rcases List.mem_cons.1 ht with rfl | ht
  · decide
  rcases List.mem_cons.1 ht with rfl | ht
  · exact h.guid.space
  · exact (h.args t ht).space

theorem Ok.splitOn_text (h : cmd.Ok) : cmd.text.splitOn ' ' = "DISPATCH".toList :: cmd.guid :: cmd.args :=
  List.splitOn_intercalate ' ' h.space (by simp)

theorem Ok.text_eq (_ : cmd.Ok) : cmd.text = DISPATCH ++ [' '].intercalate (cmd.guid :: cmd.args) := by
  rw [text, List.intercalate_cons_cons]; rfl

def event : Command → Event
  | .exit guid => .exit guid
  | .remove guid name => .remove guid name
  | .available guid name type address ins outs => .available guid name type.fromType address ins outs

theorem Ok.ofCommand (h : cmd.Ok) : Event.ofCommand cmd.guid cmd.args = cmd.event := by
  cases cmd with
  | exit guid => rfl
  | remove guid name => rfl
  | available guid name type address ins outs =>
    have h1 := (h.args name (by simp [Command.args])).ne_nil
    have h2 := (h.args type.fromType (by simp [Command.args])).ne_nil
    have h3 := (h.args address (by simp [Command.args])).ne_nil
    have h5 := (h.args outs (by simp [Command.args])).ne_nil
    simp [Event.ofCommand, Event.ofAvailable, Command.args, Command.guid, event, h1, h2, h3, h5, DISCOVERY_AVAILABLE]

theorem Ok.decode (h : cmd.Ok) {myGuid : Str} (hne : cmd.guid ≠ cString myGuid) :
    Event.decode myGuid cmd.text = cmd.event := by
  have htoks : (cmd.text.drop DISPATCH.length).splitOn ' ' = cmd.guid :: cmd.args := by
    rw [h.text_eq, List.drop_left]
    exact List.splitOn_intercalate ' ' (fun t ht => h.space t (List.mem_cons_of_mem _ ht)) (by simp)
  have hprint : cmd.text.all isprint = true := by
    refine List.all_eq_true.2 fun x hx => ?_
    rcases mem_intercalate hx with rfl | ⟨t, ht, hx⟩
    · rfl
    rcases List.mem_cons.1 ht with rfl | ht
    · exact (by decide : ∀ x ∈ "DISPATCH".toList, isprint x = true) x hx
    rcases List.mem_cons.1 ht with rfl | ht
    · exact h.guid.print x hx
    · exact (h.args t ht).print x hx
  have hsender : Event.sender cmd.text = cmd.guid := by rw [Event.sender, htoks]; rfl
  have hcommand : Event.command cmd.text = cmd.args := by rw [Event.command, htoks]; rfl
  have htag : DISPATCH <+: cmd.text := by rw [h.text_eq]; exact List.prefix_append ..
  rw [Event.decode, if_pos ⟨hprint, htag, by rwa [hsender]⟩, hsender, hcommand, h.ofCommand]

def onReceive (p : Py.Directory) (now : Int) : Command → Option Py.Exc × Py.Directory
  | .exit guid => (none, p.discoveryExiting guid)
  | .remove guid name => (none, p.discoveryRemove guid name)
  | .available guid name type address ins outs =>
    p.discoveryAvailable now guid ([' '].intercalate [name, type.fromType, address, ins, outs])

theorem Ok.onReceive_eq (h : cmd.Ok) {p : Py.Directory} (hp : cmd.guid ≠ p.myGuid) (now : Int) :
    p.onReceive now cmd.text = cmd.onReceive p now := by
  have hsplit := h.splitOn_text
  cases cmd with
  | exit guid =>
    have hne : guid ≠ p.myGuid := hp
    have hparts : Py.splitMax ' ' 3 (Command.exit guid).text = ["DISPATCH".toList, guid, "X".toList] := by
      rw [Py.splitMax, hsplit]; rfl
    simp [Py.Directory.onReceive, onReceive, hparts, hne]
  | remove guid name =>
    have hne : guid ≠ p.myGuid := hp
    have hparts : Py.splitMax ' ' 3 (Command.remove guid name).text =
        ["DISPATCH".toList, guid, "R".toList, name] := by
      rw [Py.splitMax, hsplit]; rfl
    simp [Py.Directory.onReceive, onReceive, hparts, hne]
  | available guid name type address ins outs =>
    have hne : guid ≠ p.myGuid := hp
    have hparts : Py.splitMax ' ' 3 (Command.available guid name type address ins outs).text =
        ["DISPATCH".toList, guid, "A".toList, [' '].intercalate [name, type.fromType, address, ins, outs]] := by
      rw [Py.splitMax, hsplit]; rfl
    simp [Py.Directory.onReceive, onReceive, hparts, hne]

end Command

theorem Py.Directory.socketTypeValues_fromType {t : SocketType} (h : t ∈ socketTypeStrings) :
    socketTypeValues t.fromType = some t := by
  revert h
  cases t <;> decide

/-! ### The relation -/

def cppView (t : DirectoryTopic) : SocketType × Str := (t.socketType, t.address)

def pyView (t : Py.Topic) : SocketType × Str := (t.socketType, t.address)

/-- The C++ directory `c` and the Python directory `p` on the same network, with the same topics. -/
structure Agree (cppGuid pyGuid : Str) (c : Directory) (p : Py.Directory) : Prop where
  cppSelf : c.myGuid = cppGuid
  cppTopics : c.topics.myGuid = cppGuid
  pySelf : p.myGuid = pyGuid
  pyTopics : p.topics.myGuid = pyGuid
  network : p.interfaceInfo = c.ownAddress
  cppNoEmpty : c.topics.networkTopics.NoEmpty
  pyNoEmpty : p.topics.networkTopics.NoEmpty
  entry : ∀ n g, (c.topics.entry n g).map cppView = (p.topics.entry n g).map pyView

namespace Agree
variable {cppGuid pyGuid : Str} {c c' : Directory} {p p' : Py.Directory}

theorem update (h : Agree cppGuid pyGuid c p)
    (hc : c'.myGuid = c.myGuid ∧ c'.ownAddress = c.ownAddress ∧ c'.topics.myGuid = c.topics.myGuid)
    (hp : p'.myGuid = p.myGuid ∧ p'.interfaceInfo = p.interfaceInfo ∧ p'.topics.myGuid = p.topics.myGuid)
    (hcn : c'.topics.networkTopics.NoEmpty) (hpn : p'.topics.networkTopics.NoEmpty)
    (he : ∀ n g, (c'.topics.entry n g).map cppView = (p'.topics.entry n g).map pyView) :
    Agree cppGuid pyGuid c' p' := by
  obtain ⟨hc1, hc2, hc3⟩ := hc
  obtain ⟨hp1, hp2, hp3⟩ := hp
  exact ⟨hc1.trans h.cppSelf, hc3.trans h.cppTopics, hp1.trans h.pySelf, hp3.trans h.pyTopics,
    by rw [hp2, h.network, hc2], hcn, hpn, he⟩

theorem accepts_iff (h : Agree cppGuid pyGuid c p) (t : DirectoryTopic) (t' : Py.Topic) (hn : t'.name = t.name)
    (hg : t'.guid = t.guid) (ha : t'.address = t.address) : p.topics.Accepts t' ↔ c.topics.Accepts t := by
  have he := h.entry t.name t.guid
  unfold Py.TopicMap.Accepts DirectoryTopicStore.Accepts
  rw [hn, hg, ha]
  cases hc : c.topics.entry t.name t.guid with
  | none =>
    rw [hc] at he
    have hp : p.topics.entry t.name t.guid = none := by simpa using he.symm
    simp [hp]
  | some old =>
    rw [hc] at he
    obtain ⟨old', ho, hv⟩ := Option.map_eq_some_iff.1 he.symm
    have hold : old'.address = old.address := congrArg Prod.snd hv
    simp [ho, hold]

theorem add (h : Agree cppGuid pyGuid c p) (now : Int) {name address guid : Str} {type : SocketType}
    {inTypes outTypes : TypeSet}
    {t' : Py.Topic} (hn : t'.name = name) (hs : t'.socketType = type) (ha : t'.address = address)
    (hgt : t'.guid = guid) (ht : type ∈ Py.Directory.socketTypeStrings) (hg : guid ≠ cppGuid)
    (hg' : guid ≠ pyGuid) :
    (p.add t').1 = none ∧ Agree cppGuid pyGuid (c.add now name type address inTypes outTypes guid).2 (p.add t').2 := by
  set t := Directory.topicAt now name type address inTypes outTypes guid with htdef
  have hpy : p.add t' = (none, p.stored (p.topics.addNetwork t')) := by
    have hother : t'.guid ≠ p.topics.myGuid := by rw [hgt, h.pyTopics]; exact hg'
    rw [Py.Directory.add, p.topics.add_of_other hother]
    simp [Py.Directory.buildBroadcastString, hs, ht]
  have hcpp : Directory.OnlySent (c.stored (.add t) (c.topics.addNetwork t))
      (c.add now name type address inTypes outTypes guid).2 := by
    have hother : t.guid ≠ c.topics.myGuid := by rw [h.cppTopics]; exact hg
    have hadd : Directory.OnlySent (c.stored (.add t) (c.topics.add t).2) _ :=
      c.add_snd now name type address inTypes outTypes guid
    rwa [c.topics.add_of_other hother] at hadd
  obtain ⟨sent, hcpp⟩ := hcpp
  rw [hpy, hcpp]
  refine ⟨rfl, h.update ⟨rfl, rfl, DirectoryTopicStore.addNetwork_myGuid ..⟩ ⟨rfl, rfl, ?_⟩ ?_ ?_ fun n g => ?_⟩
  · dsimp only [Py.Directory.stored]
    by_cases hacc : p.topics.Accepts t'
    · rw [p.topics.addNetwork_of_accepts hacc]
    · rw [p.topics.addNetwork_of_not_accepts hacc]
  · exact DirectoryTopicStore.addNetwork_noEmpty t h.cppNoEmpty
  · dsimp only [Py.Directory.stored]
    by_cases hacc : p.topics.Accepts t'
    · rw [p.topics.addNetwork_of_accepts hacc]; exact h.pyNoEmpty.put t'.name t'.guid t'
    · rw [p.topics.addNetwork_of_not_accepts hacc]; exact h.pyNoEmpty
  · have hiff := h.accepts_iff t t' hn hgt ha
    dsimp only [Py.Directory.stored, Directory.stored]
    rw [DirectoryTopicStore.entry_addNetwork]
    by_cases hacc : c.topics.Accepts t
    · rw [p.topics.addNetwork_of_accepts (hiff.2 hacc), Py.TopicMap.entry, NestedMap.entry_put]
      have hkey : (t'.name = n ∧ t'.guid = g) ↔ (t.name = n ∧ t.guid = g) := by rw [hn, hgt]; rfl
      by_cases hk : t.name = n ∧ t.guid = g
      · rw [if_pos ⟨hk, hacc⟩, if_pos (hkey.2 hk), Option.map_some, Option.map_some, cppView, pyView, hs, ha]
        rfl
      · rw [if_neg fun h => hk h.1, if_neg (mt hkey.1 hk)]
        exact h.entry n g
    · rw [if_neg fun h => hacc h.2, p.topics.addNetwork_of_not_accepts (mt hiff.1 hacc)]
      exact h.entry n g

theorem remove (h : Agree cppGuid pyGuid c p) {guid : Str} (hg : guid ≠ cppGuid) (hg' : guid ≠ pyGuid) (name : Str) :
    Agree cppGuid pyGuid (c.handle 0 (.remove guid name)) (p.discoveryRemove guid name) := by
  have hc : (c.handle 0 (.remove guid name)).topics = (c.topics.eraseGuid guid name).1 := by
    rw [Directory.handle, c.topics.remove_of_other name (by rw [h.cppTopics]; exact hg)]
    rfl
  have hp : (p.discoveryRemove guid name).topics =
      { p.topics with networkTopics := p.topics.networkTopics.drop name guid } :=
    p.topics.remove_of_other (by rw [h.pyTopics]; exact hg') name
  refine h.update ⟨rfl, rfl, ?_⟩ ⟨rfl, rfl, ?_⟩ ?_ ?_ fun n g => ?_
  · rw [hc, DirectoryTopicStore.eraseGuid_myGuid]
  · rw [hp]
  · rw [hc, DirectoryTopicStore.eraseGuid_eq]; exact h.cppNoEmpty.drop name guid
  · rw [hp]; exact h.pyNoEmpty.drop name guid
  · rw [hc, hp, DirectoryTopicStore.entry_eraseGuid, Py.TopicMap.entry, NestedMap.entry_drop]
    split
    · rfl
    · exact h.entry n g

theorem exit (h : Agree cppGuid pyGuid c p) (guid : Str) :
    Agree cppGuid pyGuid (c.handle 0 (.exit guid)) (p.discoveryExiting guid) := by
  have hc : (c.handle 0 (.exit guid)).topics = (c.topics.evict guid).1 := rfl
  have hp : (p.discoveryExiting guid).topics =
      { p.topics with networkTopics := p.topics.networkTopics.dropAll guid } :=
    Py.TopicMap.removeAll_eq h.pyNoEmpty guid
  refine h.update ⟨rfl, rfl, ?_⟩ ⟨rfl, rfl, ?_⟩ ?_ ?_ fun n g => ?_
  · rw [hc, DirectoryTopicStore.evict_myGuid]
  · rw [hp]
  · rw [hc, DirectoryTopicStore.evict_fst]; exact h.cppNoEmpty.dropAll guid
  · rw [hp]; exact h.pyNoEmpty.dropAll guid
  · rw [hc, hp, DirectoryTopicStore.entry_evict, Py.TopicMap.entry, NestedMap.entry_dropAll]
    split
    · rfl
    · exact h.entry n g

end Agree

/-! ### Sequences of datagrams -/

namespace Agree
variable {cppGuid pyGuid : Str} {c : Directory} {p : Py.Directory}

theorem step (h : Agree cppGuid pyGuid c p) {cmd : Command} (hok : cmd.Ok) (hc : cmd.guid ≠ cString cppGuid)
    (hp : cmd.guid ≠ pyGuid) (now now' : Int) :
    ∃ c', c.event now cmd.text = .ok c' ∧ (p.onReceive now' cmd.text).1 = none ∧
      Agree cppGuid pyGuid c' (p.onReceive now' cmd.text).2 := by
  have hc' : cmd.guid ≠ cppGuid := by
    intro h0
    rw [← h0, cString_eq_self hok.guid.nul] at hc
    exact hc rfl
  refine ⟨_, c.event_eq now hok.length, ?_⟩
  rw [hok.decode (h.cppSelf ▸ hc), hok.onReceive_eq (h.pySelf ▸ hp)]
  cases cmd with
  | exit guid => exact ⟨rfl, h.exit guid⟩
  | remove guid name => exact ⟨rfl, h.remove hc' hp name⟩
  | available guid name type address ins outs =>
    obtain ⟨htype, proto, w, x, y, z, port, haddr⟩ := hok.address
    obtain ⟨s, hs, hip⟩ := haddr.fromString_ip
    have hargs : ([' '].intercalate [name, type.fromType, address, ins, outs]).splitOn ' ' =
        [name, type.fromType, address, ins, outs] :=
      List.splitOn_intercalate ' ' (fun t ht => (hok.args t (List.mem_cons_of_mem _ ht)).space) (by simp)
    have hon : Py.onNetwork p.interfaceInfo s.ip = .ok (c.ownAddress.onNetwork (Address.parse address).ip) := by
      rw [hip, h.network, haddr.onNetwork]
    simp only [Command.onReceive, Command.event, Py.Directory.discoveryAvailable, hargs, hs, hon, Directory.handle,
      Directory.available]
    cases c.ownAddress.onNetwork (Address.parse address).ip with
    | false => exact ⟨rfl, h⟩
    | true =>
      simp only [if_true, SocketType.fromName_fromType, Py.Directory.socketTypeValues_fromType htype]
      exact h.add now rfl rfl rfl rfl htype hc' hp

theorem of_new (cppGuid pyGuid : Str) (own : OwnAddress) : Agree cppGuid pyGuid (.new cppGuid own) (.new pyGuid own) :=
  ⟨rfl, rfl, rfl, rfl, rfl, NestedMap.noEmpty_empty, NestedMap.noEmpty_empty, fun n g => by
    simp [Directory.new, Py.Directory.new, DirectoryTopicStore.new, Py.TopicMap.new, DirectoryTopicStore.entry,
      Py.TopicMap.entry]⟩

theorem networkTopics_eq (h : Agree cppGuid pyGuid c p) :
    c.topics.networkTopics.mapValues cppView = p.topics.networkTopics.mapValues pyView := by
  refine NestedMap.ext_entry (h.cppNoEmpty.mapValues _) (h.pyNoEmpty.mapValues _) fun n g => ?_
  rw [NestedMap.entry_mapValues, NestedMap.entry_mapValues]
  exact h.entry n g

end Agree

structure Arrival where
  command : Command
  cppTime : Int
  pyTime : Int

def cppRun (c : Directory) (l : List Arrival) : Except Fault Directory :=
  l.foldlM (fun c x => c.event x.cppTime x.command.text) c

def pyRun (p : Py.Directory) (l : List Arrival) : Py.Directory :=
  l.foldl (fun p x => (p.onReceive x.pyTime x.command.text).2) p

theorem Agree.run {cppGuid pyGuid : Str} {c : Directory} {p : Py.Directory} (h : Agree cppGuid pyGuid c p)
    {l : List Arrival}
    (hl : ∀ x ∈ l, x.command.Ok ∧ x.command.guid ≠ cString cppGuid ∧ x.command.guid ≠ pyGuid) :
    ∃ c', cppRun c l = .ok c' ∧ Agree cppGuid pyGuid c' (pyRun p l) := by
  induction l generalizing c p with
  | nil => exact ⟨c, rfl, h⟩
  | cons x l ih =>
    obtain ⟨hok, hc, hp⟩ := hl x (by simp)
    obtain ⟨c₁, he, -, h₁⟩ := h.step hok hc hp x.cppTime x.pyTime
    obtain ⟨c', hrun, h'⟩ := ih h₁ fun y hy => hl y (by simp [hy])
    refine ⟨c', ?_, h'⟩
    rw [cppRun, List.foldlM_cons, he]
    exact hrun

/-- The C++ and the Python directory, on the same network, hold the same topics after any sequence of
well-formed datagrams: the same names, guids, socket types and addresses. -/
theorem cpp_py_agree (cppGuid pyGuid : Str) (own : OwnAddress) (l : List Arrival)
    (hok : ∀ x ∈ l, x.command.Ok) (hcpp : ∀ x ∈ l, x.command.guid ≠ cString cppGuid)
    (hpy : ∀ x ∈ l, x.command.guid ≠ pyGuid) :
    ∃ c, cppRun (.new cppGuid own) l = .ok c ∧
      c.topics.networkTopics.mapValues cppView =
        (pyRun (.new pyGuid own) l).topics.networkTopics.mapValues pyView := by
  obtain ⟨c, hc, h⟩ := (Agree.of_new cppGuid pyGuid own).run (l := l)
    fun x hx => ⟨hok x hx, hcpp x hx, hpy x hx⟩
  exact ⟨c, hc, h.networkTopics_eq⟩

def twoArrivals : List Arrival :=
  [⟨.available "n1".toList "t".toList .pub "tcp://10.0.0.1:4000".toList ".".toList "pose".toList, 1, 2⟩,
    ⟨.remove "n1".toList "u".toList, 3, 4⟩]

theorem cpp_py_agree_two : ∃ c,
    cppRun (.new "n2".toList ⟨0x0a000000#32, 0xff000000#32⟩) twoArrivals = .ok c ∧
      c.topics.networkTopics.mapValues cppView =
        (pyRun (.new "n3".toList ⟨0x0a000000#32, 0xff000000#32⟩) twoArrivals).topics.networkTopics.mapValues
          pyView := by
  refine cpp_py_agree _ _ _ twoArrivals (fun x hx => ?_) (by decide) (by decide)
  rcases List.mem_cons.1 hx with rfl | hx
  · refine ⟨by decide, by decide, ⟨by decide, "tcp".toList, 10, 0, 0, 1, "4000".toList, ?_⟩, by decide⟩
    exact ⟨by decide, by decide, by decide, by decide, by decide, by decide⟩
  · rw [List.mem_singleton.1 hx]
    exact ⟨by decide, by decide, trivial, by decide⟩

end A17.Dispatch
