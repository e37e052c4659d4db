import A17.Dispatch.Isolation
import A17.Lib.Dict
import A17.Lib.OwnedNames

/-!
# Servers and the topics of their directory

A `Server` binds its socket, adds its topic to the directory, and removes it when it is destroyed. A move takes the
address along, but neither the topic's name nor the clean-up: a topic stays with the server it was constructed in
(`Server.site`), and the topics of the directory are those of the servers that are still there (`topics_run`).
-/

open Std

namespace A17.Dispatch

structure Server where
  topicName : Str
  address : Str
  /-- Whether `on_destroy_` is set. -/
  onDestroy : Bool
  /-- The address of the bind, which stays when the socket is moved away; not a field of the source. -/
  bound : Str

/-- The topic that the server removes when it is destroyed, and the address it was added with. -/
def Server.site (s : Server) : Option (Str × Str) := if s.onDestroy then some (s.topicName, s.bound) else none

/-- A directory with its next port, and the servers that are alive. -/
structure Hosting where
  directory : Directory
  nextServerPort_ : UInt16 := 0
  servers : List (Nat × Server) := []
  constructed : Nat := 0

/-- The operations that are not a server's. -/
def DirectoryOp.ofServer : DirectoryOp → Bool
  | .add .. | .remove .. => true
  | _ => false

inductive HostingOp where
  /-- `lastEndpoint` is what a bind to a port leads to, if it does not throw. -/
  | construct (now : Int) (topicName : Str) (socketType : SocketType) (lastEndpoint : UInt16 → Option Str)
      (inputTypes outputTypes : TypeSet)
  | constructAt (lastEndpoint : Option Str)
  | move (id : Nat)
  | destroy (id : Nat)
  | directory (op : {op : DirectoryOp // op.ofServer = false})

namespace Hosting

def nextServerPort (h : Hosting) : UInt16 × Hosting :=
  if h.nextServerPort_ = 0 then (0, h) else (h.nextServerPort_, { h with nextServerPort_ := h.nextServerPort_ + 1 })

/-- The constructor's bind, which is tried again with a random port. -/
def bind (port : UInt16) (lastEndpoint : UInt16 → Option Str) : Option Str :=
  match lastEndpoint port with
  | some address => some address
  | none => if port = 0 then none else lastEndpoint 0

/-- The constructor. When it throws there is no server, and no destructor runs. -/
def construct (h : Hosting) (now : Int) (topicName : Str) (socketType : SocketType)
    (lastEndpoint : UInt16 → Option Str) (inputTypes outputTypes : TypeSet) : Hosting :=
  let (port, h) := h.nextServerPort
  match bind port lastEndpoint with
  | none => h
  | some address =>
    let (result, directory) :=
      h.directory.add now topicName socketType address inputTypes outputTypes h.directory.myGuid
    match result with
    | .error _ => { h with directory }
    | .ok _ =>
      { h with
        directory
        servers := h.servers ++ [(h.constructed, ⟨topicName, address, true, address⟩)]
        constructed := h.constructed + 1 }

/-- The constructor without a directory. -/
def constructAt (h : Hosting) : Option Str → Hosting
  | none => h
  | some address =>
    { h with
      servers := h.servers ++ [(h.constructed, ⟨[], address, false, address⟩)]
      constructed := h.constructed + 1 }

/-- The move constructor, which leaves `topic_name_` and `on_destroy_` behind. -/
def move (h : Hosting) (id : Nat) : Hosting :=
  match h.servers.lookup id with
  | none => h
  | some other =>
    { h with
      servers := Dict.update h.servers id (fun s => { s with address := [] }) ++
        [(h.constructed, ⟨[], other.address, false, other.bound⟩)]
      constructed := h.constructed + 1 }

/-- The destructor. -/
def destroy (h : Hosting) (id : Nat) : Hosting :=
  match h.servers.lookup id with
  | none => h
  | some server =>
    { h with
      directory := if server.onDestroy then h.directory.remove server.topicName else h.directory
      servers := Dict.del h.servers id }

def step (h : Hosting) : HostingOp → Hosting
  | .construct now topicName socketType lastEndpoint inputTypes outputTypes =>
    h.construct now topicName socketType lastEndpoint inputTypes outputTypes
  | .constructAt lastEndpoint => h.constructAt lastEndpoint
  | .move id => h.move id
  | .destroy id => h.destroy id
  | .directory op => { h with directory := h.directory.step op }

def run (h : Hosting) (ops : List HostingOp) : Hosting := ops.foldl step h

def new (myGuid : Str) (ownAddress : OwnAddress) (nextServerPort : UInt16) : Hosting where
  directory := .new myGuid ownAddress
  nextServerPort_ := nextServerPort

def sites (servers : List (Nat × Server)) (id : Nat) : Option (Str × Str) := (servers.lookup id).bind Server.site

end Hosting

/-- The address that a topic of the directory's own is advertised with. -/
def Directory.advertised (d : Directory) (name : Str) : Option Str :=
  d.topics.localTopics[name]?.map DirectoryTopic.address

/-! ### What an operation does to the own topics -/

namespace Directory
variable {d : Directory}

theorem advertised_congr {d' : Directory} (h : d'.topics.localTopics = d.topics.localTopics) :
    d'.advertised = d.advertised := by
  funext name
  rw [advertised, advertised, h]

theorem advertised_step (hd : d.Inv) {op : DirectoryOp} (hop : op.ofServer = false) :
    (d.step op).advertised = d.advertised := by
  refine advertised_congr ?_
  rw [step_topics]
  refine (hd.topics.run_others fun call hcall hown => ?_).2
  cases op with
  | add | remove => cases hop
  | observe | unobserve =>
    rw [List.mem_singleton.1 hcall] at hown
    cases hown
  | receive now bytes =>
    rw [eventOps_guid hcall] at hown
    exact (Event.guid_decode hown).2 hd.guid
  | expire | complete | runPosted => cases hcall

theorem advertised_remove (hd : d.Inv) (topicName : Str) :
    (d.remove topicName).advertised = Function.update d.advertised topicName none := by
  have htopics : (d.remove topicName).topics = d.topics.run [.remove d.myGuid topicName] :=
    d.step_topics (.remove topicName)
  have hlocal : (d.remove topicName).topics.localTopics = d.topics.localTopics.erase topicName := by
    rw [htopics, ← hd.guid]
    show (d.topics.remove d.topics.myGuid topicName).2.1.localTopics = _
    rw [d.topics.remove_of_own]
    exact DirectoryTopicStore.eraseGuid_localTopics ..
  funext name
  rw [advertised, hlocal, ExtTreeMap.find_erase, Function.update_apply]
  by_cases hname : topicName = name
  · rw [if_pos hname, if_pos hname.symm, Option.map_none]
  · rw [if_neg hname, if_neg (Ne.symm hname)]
    rfl

/-- The own topic is added, or it is there and `add` throws. -/
theorem add_own_cases (hd : d.Inv) (now : Int) (topicName : Str) (socketType : SocketType) (address : Str)
    (inputTypes outputTypes : TypeSet) :
    let r := d.add now topicName socketType address inputTypes outputTypes d.myGuid
    (∃ e, r.1 = .error e ∧ r.2.advertised = d.advertised) ∨
    (∃ b, r.1 = .ok b ∧ d.advertised topicName = none ∧
      r.2.advertised = Function.update d.advertised topicName (some address)) := by
  set topic := topicAt now topicName socketType address inputTypes outputTypes d.myGuid with htopic
  have hown : topic.guid = d.topics.myGuid := hd.guid.symm
  have htopics : (d.add now topicName socketType address inputTypes outputTypes d.myGuid).2.topics =
      (d.topics.add topic).2.1 :=
    d.step_topics (.add now topicName socketType address inputTypes outputTypes d.myGuid)
  by_cases hmem : topicName ∈ d.topics.localTopics
  · rw [d.topics.add_of_duplicate hown hmem] at htopics
    refine .inl ⟨"Duplicate topic: ".toList ++ topic.name, ?_, advertised_congr (congrArg _ htopics)⟩
    rw [add, ← htopic, d.topics.add_of_duplicate hown hmem]
  · rw [d.topics.add_of_own hown hmem] at htopics
    have hlocal : (d.add now topicName socketType address inputTypes outputTypes d.myGuid).2.topics.localTopics =
        d.topics.localTopics.insert topicName topic :=
      (congrArg _ htopics).trans (DirectoryTopicStore.addNetwork_localTopics _ topic)
    refine .inr ⟨true, ?_, ?_, ?_⟩
    · rw [add, ← htopic, d.topics.add_of_own hown hmem]
    · rw [advertised, ExtTreeMap.find_eq_none.2 hmem, Option.map_none]
    · funext name
      rw [advertised, hlocal, ExtTreeMap.find_insert, Function.update_apply]
      by_cases hname : topicName = name
      · rw [if_pos hname, if_pos hname.symm]
        rfl
      · rw [if_neg hname, if_neg (Ne.symm hname)]
        rfl

end Directory

namespace Hosting
variable {h : Hosting}

/-! ### What an operation does to the servers -/

section
variable {servers : List (Nat × Server)} {id : Nat}

theorem sites_concat (hid : servers.lookup id = none) (server : Server) :
    sites (servers ++ [(id, server)]) = Function.update (sites servers) id server.site := by
  funext id'
  rw [sites, List.lookup_append, Dict.find_cons, List.lookup_nil, Function.update_apply]
  by_cases h : id = id'
  · rw [if_pos h, if_pos h.symm, ← h, hid]
    rfl
  · rw [if_neg h, if_neg (Ne.symm h), Option.or_none]
    rfl

theorem sites_update {f : Server → Server} (hf : ∀ s, (f s).site = s.site) :
    sites (Dict.update servers id f) = sites servers := by
  funext id'
  rw [sites, sites, Dict.lookup_update]
  split
  · rw [Option.bind_map]
    exact congrArg _ (funext hf)
  · rfl

theorem sites_del : sites (Dict.del servers id) = Function.update (sites servers) id none := by
  funext id'
  rw [sites, Dict.lookup_del, Function.update_apply]
  by_cases h : id = id'
  · rw [if_pos h, if_pos h.symm, Option.bind_none]
  · rw [if_neg h, if_neg (Ne.symm h)]
    rfl

end

structure Inv (h : Hosting) : Prop where
  directory : h.directory.Inv
  lt : ∀ id ∈ Dict.keys h.servers, id < h.constructed
  owned : Owned h.directory.advertised (sites h.servers)

namespace Inv

theorem new (myGuid : Str) (ownAddress : OwnAddress) (port : UInt16) : (Hosting.new myGuid ownAddress port).Inv where
  directory := .of_new myGuid ownAddress
  lt id hid := by cases hid
  owned := by
    have hnone : (Hosting.new myGuid ownAddress port).directory.advertised = fun _ => none := by
      funext name
      rfl
    rw [hnone]
    exact .empty

section
variable {servers : List (Nat × Server)}

theorem lookup_constructed (hi : h.Inv) (hkeys : Dict.keys servers = Dict.keys h.servers) :
    servers.lookup h.constructed = none := by
  rw [← Option.not_isSome_iff_eq_none, ← Dict.mem_keys, hkeys]
  exact fun hmem => absurd (hi.lt _ hmem) (Nat.lt_irrefl _)

theorem sites_constructed (hi : h.Inv) (hkeys : Dict.keys servers = Dict.keys h.servers) :
    sites servers h.constructed = none := by
  rw [sites, hi.lookup_constructed hkeys, Option.bind_none]

theorem lt_concat (hi : h.Inv) (hkeys : Dict.keys servers = Dict.keys h.servers) (server : Server) :
    ∀ id ∈ Dict.keys (servers ++ [(h.constructed, server)]), id < h.constructed + 1 := by
  intro id hid
  rw [Dict.keys, List.map_append, List.mem_append] at hid
  rcases hid with hid | hid
  · exact Nat.lt_succ_of_lt (hi.lt id (hkeys ▸ hid))
  · rw [List.mem_singleton.1 hid]
    exact Nat.lt_succ_self _

/-- A server without a clean-up comes. -/
theorem concat (hi : h.Inv) (hkeys : Dict.keys servers = Dict.keys h.servers)
    (hsites : sites servers = sites h.servers) {server : Server} (hsite : server.site = none) :
    ({ h with servers := servers ++ [(h.constructed, server)], constructed := h.constructed + 1 } : Hosting).Inv := by
  refine ⟨hi.directory, hi.lt_concat hkeys server, ?_⟩
  show Owned h.directory.advertised (sites (servers ++ [(h.constructed, server)]))
  rw [sites_concat (hi.lookup_constructed hkeys), hsite, ← hi.sites_constructed hkeys, Function.update_eq_self,
    hsites]
  exact hi.owned

end

theorem nextServerPort (hi : h.Inv) : h.nextServerPort.2.Inv := by
  unfold Hosting.nextServerPort
  split
  · exact hi
  · exact ⟨hi.directory, hi.lt, hi.owned⟩

theorem construct (hi : h.Inv) (now : Int) (topicName : Str) (socketType : SocketType)
    (lastEndpoint : UInt16 → Option Str) (inputTypes outputTypes : TypeSet) :
    (h.construct now topicName socketType lastEndpoint inputTypes outputTypes).Inv := by
  unfold Hosting.construct
  have hport := hi.nextServerPort
  generalize h.nextServerPort = taken at hport ⊢
  obtain ⟨port, h⟩ := taken
  dsimp only at hport ⊢
  cases bind port lastEndpoint with
  | none => exact hport
  | some address =>
    have hadd := Directory.add_own_cases hport.directory now topicName socketType address inputTypes outputTypes
    have hinv : (h.directory.add now topicName socketType address inputTypes outputTypes h.directory.myGuid).2.Inv :=
      hport.directory.step (.add now topicName socketType address inputTypes outputTypes h.directory.myGuid)
    dsimp only at hadd ⊢
    generalize h.directory.add now topicName socketType address inputTypes outputTypes h.directory.myGuid = added
      at hadd hinv ⊢
    obtain ⟨result, directory⟩ := added
    dsimp only at hadd hinv ⊢
    rcases hadd with ⟨e, rfl, hsame⟩ | ⟨b, rfl, hnone, hupdate⟩
    · exact ⟨hinv, hport.lt, hsame ▸ hport.owned⟩
    · refine ⟨hinv, hport.lt_concat rfl _, ?_⟩
      show Owned directory.advertised _
      rw [hupdate, sites_concat (hport.lookup_constructed rfl)]
      exact hport.owned.insert address (hport.sites_constructed rfl) hnone

theorem constructAt (hi : h.Inv) (lastEndpoint : Option Str) : (h.constructAt lastEndpoint).Inv := by
  cases lastEndpoint with
  | none => exact hi
  | some address => exact hi.concat rfl rfl rfl

theorem move (hi : h.Inv) (id : Nat) : (h.move id).Inv := by
  unfold Hosting.move
  split
  · exact hi
  -- what is new has no clean-up, and what is left keeps its own
  · have hsites : sites (Dict.update h.servers id fun s => { s with address := [] }) = sites h.servers :=
      sites_update fun _ => rfl
    exact hi.concat (Dict.keys_update _) hsites rfl

theorem destroy (hi : h.Inv) (id : Nat) : (h.destroy id).Inv := by
  unfold Hosting.destroy
  cases hserver : h.servers.lookup id with
  | none => exact hi
  | some server =>
    have hlt : ∀ id' ∈ Dict.keys (Dict.del h.servers id), id' < h.constructed := by
      intro id' hid'
      obtain ⟨e, he, rfl⟩ := List.mem_map.1 hid'
      exact hi.lt _ (List.mem_map_of_mem (List.mem_of_mem_filter he))
    have hsite : sites h.servers id = server.site := by
      rw [sites, hserver, Option.bind_some]
    rw [Server.site] at hsite
    dsimp only
    cases hdestroy : server.onDestroy with
    | true =>
      rw [hdestroy, if_pos rfl] at hsite
      rw [if_pos rfl]
      refine ⟨hi.directory.step (.remove server.topicName), hlt, ?_⟩
      show Owned (h.directory.remove server.topicName).advertised _
      rw [Directory.advertised_remove hi.directory, sites_del]
      exact hi.owned.erase hsite
    | false =>
      rw [hdestroy, if_neg Bool.false_ne_true] at hsite
      rw [if_neg Bool.false_ne_true]
      refine ⟨hi.directory, hlt, ?_⟩
      show Owned h.directory.advertised _
      rw [sites_del, ← hsite, Function.update_eq_self]
      exact hi.owned

theorem step (hi : h.Inv) (op : HostingOp) : (h.step op).Inv := by
  cases op with
  | construct now topicName socketType lastEndpoint inputTypes outputTypes => exact hi.construct ..
  | constructAt lastEndpoint => exact hi.constructAt lastEndpoint
  | move id => exact hi.move id
  | destroy id => exact hi.destroy id
  | directory op =>
    refine ⟨hi.directory.step op, hi.lt, ?_⟩
    show Owned (h.directory.step op).advertised _
    rw [Directory.advertised_step hi.directory op.2]
    exact hi.owned

theorem run (hi : h.Inv) (ops : List HostingOp) : (h.run ops).Inv := by
  induction ops generalizing h with
  | nil => exact hi
  | cons op ops ih => exact ih (hi.step op)

end Inv

/-- After any run, the directory's own topics are those of the living servers that were constructed with it, moved from
or not, with the addresses these were bound to, and no two of them share one. -/
theorem topics_run (myGuid : Str) (ownAddress : OwnAddress) (port : UInt16) (ops : List HostingOp) :
    let h := (new myGuid ownAddress port).run ops
    (∀ name address, h.directory.advertised name = some address ↔
      ∃ id server, h.servers.lookup id = some server ∧ server.onDestroy = true ∧ server.topicName = name ∧
        server.bound = address) ∧
    ∀ id id' server server', h.servers.lookup id = some server → h.servers.lookup id' = some server' →
      server.onDestroy = true → server'.onDestroy = true → server.topicName = server'.topicName → id = id' := by
  have hi := (Inv.new myGuid ownAddress port).run ops
  generalize (new myGuid ownAddress port).run ops = h at hi ⊢
  have hsites : ∀ id name address, sites h.servers id = some (name, address) ↔
      ∃ server, h.servers.lookup id = some server ∧ server.onDestroy = true ∧ server.topicName = name ∧
        server.bound = address := by
    intro id name address
    simp [sites, Option.bind_eq_some_iff, Server.site]
  refine ⟨fun name address => ?_, ?_⟩
  · rw [hi.owned.eq_some_iff]
    exact exists_congr fun id => hsites id name address
  · intro id id' server server' hserver hserver' hon hon' hname
    have hsite := (hsites id _ _).2 ⟨server, hserver, hon, rfl, rfl⟩
    have hsite' := (hsites id' _ _).2 ⟨server', hserver', hon', hname.symm, rfl⟩
    exact hi.owned.unique id id' server.topicName server.bound server'.bound hsite hsite'

end Hosting
end A17.Dispatch
