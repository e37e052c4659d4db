import A17.Lib.DeadlineTimer
import A17.Dispatch.Address
import A17.Dispatch.TopicStore

/-!
# `Directory`

`directory.cpp`, as functions on the directory's state. The receive buffer is the datagram followed by
the NUL that `event` writes; a read or write outside of it fails (`CString.Fault`), so what older
datagrams left behind is never looked at. Three fields record what the directory did to the outside:
the datagrams handed to the socket, the calls made on the store and the handlers invoked. Logging and
the recycling of send buffers are left out.
-/

open Std

namespace A17.Dispatch
open CString

def QUERY_INTERVAL : Nat := 1000
def QUERY_INTERVAL_MAX : Nat := 16000
def QUERY_ZERO : Nat := 50
def QUERY_INTERVAL_MULT : Nat := 2

/-- A datagram handed to the socket, with the sender's `local_topics_` at that moment. -/
structure Datagram where
  text : Str
  localTopics : ExtTreeMap Str DirectoryTopic
deriving DecidableEq

inductive StoreCall where
  | add (topic : DirectoryTopic)
  | remove (guid topicName : Str)
  | evict (guid : Str)
deriving DecidableEq

structure Directory where
  myGuid : Str
  ownAddress : OwnAddress
  topics : DirectoryTopicStore
  queryTimer : DeadlineTimer Unit := {}
  queryInterval : Nat := 0
  queryTimerActive : Bool := false
  posted : List (Str × Nat) := []
  sent : List Datagram := []
  calls : List StoreCall := []
  invoked : List (Nat × Str × GuidTopicMap) := []

/-! ### Encoding -/

/-- `Directory::writeTypes`: the text written; `buf` is the scratch buffer's first character. -/
def writeTypesLoop : List Str → Char → Str
  | [], _ => []
  | type :: types, buf =>
    (if buf ≠ NUL then [SEP] else []) ++ type.flatMap (fun id => cString [id]) ++
      writeTypesLoop types (type.getLast?.getD buf)

def writeTypes (types : TypeSet) : Str :=
  if types.isEmpty then NO_TYPES else writeTypesLoop types.toList NUL

def parseTypes (str : Str) : TypeSet :=
  if str = [] ∨ str = NO_TYPES then ∅ else (str.splitOn SEP).foldl (fun types raw => types.insert raw) ∅

def buildTopicInfo (name : Str) (socketType : SocketType) (address : Str) (inputTypes outputTypes : TypeSet) :
    Str :=
  name ++ [' '] ++ socketType.fromType ++ [' '] ++ address ++ [' '] ++ writeTypes inputTypes ++ [' '] ++
    writeTypes outputTypes

namespace Directory

def new (myGuid : Str) (ownAddress : OwnAddress) : Directory :=
  { myGuid, ownAddress, topics := .new myGuid }

/-! ### Sending -/

def send_ (d : Directory) (text : Str) : Directory :=
  { d with sent := d.sent ++ [⟨text, d.topics.localTopics⟩] }

def message (guid : Str) (command : Char) (args : Str) : Str :=
  if ¬ args.isEmpty then DISPATCH ++ cString guid ++ [' ', command, ' '] ++ cString args
  else DISPATCH ++ cString guid ++ [' ', command]

/-- `Directory::send`; `broadcast` and `reply` are the same. -/
def send (d : Directory) (command : Char) (args : Str) : Directory := d.send_ (message d.myGuid command args)

def destroy (d : Directory) : Directory := d.send_ (DISPATCH ++ d.myGuid ++ [' ', DISCOVERY_EXIT])

/-! ### Topics and observers -/

def stored (d : Directory) (call : StoreCall) (r : DirectoryTopicStore × List Notification) : Directory :=
  { d with
    topics := r.1, calls := d.calls ++ [call],
    invoked := d.invoked ++ r.2.map fun c => (c.observer.handler, c.topicName, c.guidTopicMap) }

def topicAt (now : Int) (name : Str) (socketType : SocketType) (address : Str)
    (inputTypes outputTypes : TypeSet) (guid : Str) : DirectoryTopic :=
  { name, timestamp := now, socketType, address, inputTypes, outputTypes, guid,
    info := buildTopicInfo name socketType address inputTypes outputTypes }

def add (d : Directory) (now : Int) (topicName : Str) (socketType : SocketType) (address : Str)
    (inputTypes outputTypes : TypeSet) (guid : Str) : Except Str Bool × Directory :=
  let topic := topicAt now topicName socketType address inputTypes outputTypes guid
  let r := d.topics.add topic
  let d := d.stored (.add topic) r.2
  match r.1 with
  | .error e => (.error e, d)
  | .ok true => (.ok true, d.send DISCOVERY_AVAILABLE topic.info)
  | .ok false => (.ok false, d)

def remove (d : Directory) (topicName : Str) : Directory :=
  let r := d.topics.remove d.myGuid topicName
  let d := d.stored (.remove d.myGuid topicName) r.2
  if r.1 then d.send DISCOVERY_REMOVE topicName else d

def startQueryTimer (d : Directory) : Directory :=
  let timer := if d.queryTimerActive then d.queryTimer.cancel else d.queryTimer
  { d with
    queryTimerActive := true, queryInterval := QUERY_INTERVAL,
    queryTimer := (timer.expiresFromNow QUERY_ZERO).asyncWait () }

def observe (d : Directory) (topicName : Str) (handler : Nat) (ref : Str) : Directory :=
  { d with
    topics := d.topics.observe topicName handler ref,
    posted := d.posted ++ [(topicName, handler)] }.startQueryTimer

def unobserve (d : Directory) (topicName ref : Str) : Directory :=
  { d with topics := d.topics.unobserve topicName ref }.startQueryTimer

/-! ### Searching -/

/-- The locals of the packing loop of `queryMissingTopics`. `buf` is the part of the send buffer
written so far, up to its NUL. -/
structure QueryBuffer where
  buf : Option Str := none
  count : Nat := 0
  pos : Nat := 0
  start : Nat := 0

def packTopic (acc : Directory × QueryBuffer) (topicName : Str) : Directory × QueryBuffer :=
  let startLen := DISPATCH.length + acc.1.myGuid.length + 2
  let (d, q) :=
    if acc.2.buf.isNone ∨ acc.2.pos + 1 + topicName.length ≥ EVENT_BUFFER_SIZE ∨ acc.2.count ≥ 4 then
      let d := match acc.2.buf with
        | some buf => acc.1.send_ (buf.take acc.2.pos)
        | none => acc.1
      let buf := DISPATCH ++ cString d.myGuid ++ [' ', DISCOVERY_SEARCH] ++ [NUL]
      (d, ({ buf := some buf, count := 0, pos := startLen, start := startLen } : QueryBuffer))
    else acc
  -- `buf[pos++] = ' '`, then `strcpy(&buf[pos], topic_name.c_str())`
  let buf := (q.buf.getD []).set q.pos ' '
  let buf := buf.take (q.pos + 1) ++ cString topicName ++ [NUL]
  (d, { q with buf := some buf, count := q.count + 1, pos := q.pos + 1 + topicName.length })

def backOff (d : Directory) : Directory :=
  let d := { d with queryTimer := (d.queryTimer.expiresFromNow d.queryInterval).asyncWait () }
  let d := if d.queryInterval < QUERY_INTERVAL_MAX then
    { d with queryInterval := d.queryInterval * QUERY_INTERVAL_MULT } else d
  if d.queryInterval > QUERY_INTERVAL_MAX then { d with queryInterval := QUERY_INTERVAL_MAX } else d

def sendRequests (d : Directory) (requests : List Str) : Directory :=
  let (d, q) := requests.foldl packTopic (d, {})
  if q.pos > q.start then d.send_ ((q.buf.getD []).take q.pos) else d

/-- `Directory::queryMissingTopics`; `success` is `!ec`. -/
def queryMissingTopics (d : Directory) (success : Bool) : Directory :=
  if ¬ success then d
  else
    let requests := d.topics.getMissing
    if requests.isEmpty then { d with queryTimerActive := false }
    else d.backOff.sendRequests requests.toList

/-! ### Receiving -/

/-- The loop of `nextToken`: at most `fuel` steps from `stop` to `EVENT_BUFFER_SIZE`. -/
def nextTokenLoop (buf : Str) (event : Nat) : Nat → Nat → Except Fault Nat
  | 0, stop => pure stop
  | fuel + 1, stop => do
    let c ← read buf (event + stop)
    if c ≠ ' ' ∧ c ≠ NUL then nextTokenLoop buf event fuel (stop + 1) else pure stop

def nextToken (buf : Str) (event start : Nat) : Except Fault (Nat × Str) :=
  if start ≥ EVENT_BUFFER_SIZE then pure (start, buf)
  else do
    let stop ← nextTokenLoop buf event (EVENT_BUFFER_SIZE - start) start
    if stop = EVENT_BUFFER_SIZE then pure (stop, buf)
    else
      let c ← read buf (event + stop)
      if c = NUL then pure (stop, buf)
      else
        let buf ← write buf (event + stop) NUL
        pure (stop + 1, buf)

/-- One field of `discoveryAvailable`: `next = nextToken(data, pos); if (next == pos) return;` and,
when `nonEmpty`, `if (!data[pos]) return;`. -/
def field (buf : Str) (data pos : Nat) (nonEmpty : Bool) : Except Fault (Option (Nat × Str)) := do
  let (next, buf) ← nextToken buf data pos
  if next = pos then return none
  if nonEmpty then
    let c ← read buf (data + pos)
    if c = NUL then return none
  return some (next, buf)

def available (d : Directory) (now : Int) (guid name type address ins outs : Str) : Directory :=
  if d.ownAddress.onNetwork (Address.parse address).ip then
    match SocketType.fromName type with
    | none => d
    | some socketType => (d.add now name socketType address (parseTypes ins) (parseTypes outs) guid).2
  else d

def discoveryAvailable (d : Directory) (now : Int) (buf : Str) (guid data : Nat) : Except Fault Directory := do
  let name := 0
  let some (type, buf) ← field buf data name true | return d
  let some (address, buf) ← field buf data type true | return d
  let some (ins, buf) ← field buf data address true | return d
  let some (outs, buf) ← field buf data ins false | return d
  let some (_, buf) ← field buf data outs false | return d
  return d.available now (← cstr buf guid) (← cstr buf (data + name)) (← cstr buf (data + type))
    (← cstr buf (data + address)) (← cstr buf (data + ins)) (← cstr buf (data + outs))

def discoveryRemove (d : Directory) (buf : Str) (guid data : Nat) : Except Fault Directory := do
  let (_, buf) ← nextToken buf data 0
  let guid ← cstr buf guid
  let name ← cstr buf data
  return (d.stored (.remove guid name) (d.topics.remove guid name).2).startQueryTimer

def discoveryExit (d : Directory) (buf : Str) (guid : Nat) : Except Fault Directory := do
  let guid ← cstr buf guid
  return (d.stored (.evict guid) (d.topics.evict guid)).startQueryTimer

def searchReply (d : Directory) (name : Str) : Directory :=
  if name = ['*'] then
    d.topics.localTopics.toList.foldl (fun d e => d.send DISCOVERY_AVAILABLE e.2.info) d
  else
    match d.topics.findLocal name with
    | some topic => d.send DISCOVERY_AVAILABLE topic.info
    | none => d

def discoverySearchLoop (data : Nat) : Nat → Directory → Str → Nat → Except Fault Directory
  | 0, _, _, _ => .error .outOfFuel
  | fuel + 1, d, buf, pos => do
    let c ← read buf (data + pos)
    if c = NUL then return d
    let (next, buf) ← nextToken buf data pos
    let name ← cstr buf (data + pos)
    discoverySearchLoop data fuel (if name ≠ [] then d.searchReply name else d) buf next

def discoverySearch (d : Directory) (buf : Str) (data : Nat) : Except Fault Directory :=
  discoverySearchLoop data (EVENT_BUFFER_SIZE + 1) d buf 0

def handleEvent (d : Directory) (now : Int) (buf : Str) : Except Fault Directory := do
  if ← strncmp buf 0 DISPATCH then return d
  let guid := DISPATCH.length
  let (pos, buf) ← nextToken buf 0 guid
  if (← cstr buf guid) = cString d.myGuid then return d
  let (data, buf) ← nextToken buf 0 pos
  let c ← read buf pos
  if c = DISCOVERY_AVAILABLE then d.discoveryAvailable now buf guid data
  else if c = DISCOVERY_SEARCH then d.discoverySearch buf data
  else if c = DISCOVERY_EXIT then d.discoveryExit buf guid
  else if c = DISCOVERY_REMOVE then d.discoveryRemove buf guid data
  else return d

/-- `Directory::event` for a completed receive of `bytes`; a receive error only receives again. -/
def event (d : Directory) (now : Int) (bytes : Str) : Except Fault Directory :=
  if bytes.all isprint then d.handleEvent now (bytes ++ [NUL]) else .ok d

end Directory
end A17.Dispatch
